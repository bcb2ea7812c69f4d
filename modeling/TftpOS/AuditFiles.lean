import TftpOS.Audit
import TftpOS.Lib.RotatingLog
import TftpOS.Lib.Splitting

/-!
# The files of the audit log

`_setup_handlers` of `tftpos/audit.py` with a `log_file`: every entry is a line of JSON in a file
that a `RotatingFileHandler` writes, over any number of starts of the server.

Whatever was logged, the files read one after the other, the oldest first, are the entries of the
last calls, line by line and in their order, and none is missing among them
(`AuditService.history_spec`). What the ring buffer still answers from is there too, if the files
behind the first one have the room for it (`AuditService.buffer_kept`).
-/

namespace TftpOS

open Lib

/-- The `json` module with its texts as sequences of characters. -/
structure JsonLines extends JsonText where
  Symbol : Type
  symbol_decEq : DecidableEq Symbol
  newline : Symbol
  symbols : Text → List Symbol
  ofSymbols : List Symbol → Text
  ofSymbols_symbols : ∀ text, ofSymbols (symbols text) = text
  /-- What is written without an indent is one line. -/
  newline_not_mem : ∀ v, newline ∉ symbols (dumps none v)

instance (json : JsonLines) : DecidableEq json.Symbol := json.symbol_decEq

/-- The fields of `AuditConfig` that a logger with a `log_file` reads. -/
structure AuditFileConfig extends AuditConfig where
  maxBytes : ℤ := 52428800
  backupCount : ℤ := 10

/-- The handler of a configuration. Whether an empty file moves on depends on the version of the
`logging` module. -/
def AuditFileConfig.rotation (config : AuditFileConfig) (rollsEmpty : Bool) : Rotation :=
  ⟨config.maxBytes.toNat, config.backupCount.toNat, rollsEmpty⟩

/-- What happens to a server: an event is logged, or it is started again. -/
inductive AuditService.Event where
  | log (call : LogCall)
  | restart

/-- A server's logger and the files `log_file`, `log_file.1` and so on. -/
structure AuditService (json : JsonLines) where
  logger : AuditLogger json.toJsonText
  files : LogFiles json.Symbol

namespace AuditService

variable {json : JsonLines}

/-- `_setup_handlers`: the file is opened to append to it. -/
def setupHandlers (files : LogFiles json.Symbol) : LogFiles json.Symbol :=
  Function.update files 0 (some ((files 0).getD []))

/-- A server is started on the files that are there. -/
def boot (config : AuditFileConfig) (files : LogFiles json.Symbol) : AuditService json where
  logger := .init config.toAuditConfig
  files := setupHandlers files

/-- `log`, with what the handler does with the line that it is given. -/
def log (config : AuditFileConfig) (rollsEmpty : Bool) (service : AuditService json)
    (call : LogCall) : AuditEntry × AuditService json :=
  let (entry, logger) := service.logger.log call
  -- the lines that the call has added
  let given := logger.lines.drop service.logger.lines.length
  (entry, ⟨logger, given.foldl (fun files line =>
    files.emit (config.rotation rollsEmpty) (json.symbols line ++ [json.newline])) service.files⟩)

/-- An event; a start returns nothing. -/
def step (config : AuditFileConfig) (rollsEmpty : Bool) (service : AuditService json) :
    Event → AuditEntry × AuditService json
  | .log call => service.log config rollsEmpty call
  | .restart => (∅, boot config service.files)

/-- A server that was first started without any files. -/
def after (json : JsonLines) (config : AuditFileConfig) (rollsEmpty : Bool)
    (events : List AuditService.Event) : AuditService json :=
  run (step config rollsEmpty) (boot config fun _ => none) events

end AuditService

/-! ### Reading the files -/

section

variable (json : JsonLines)

/-- The lines of a file. -/
def readLines (text : List json.Symbol) : List json.Text :=
  (splitSeq [json.newline] text).dropLast.map json.ofSymbols

/-- What the lines of the file with a number parse to. -/
def fileEntries (files : LogFiles json.Symbol) (i : ℕ) : List (Option Json) :=
  (readLines json ((files i).getD [])).map json.loads

/-- What the lines of all files parse to, the file with the highest number first. -/
def history (files : LogFiles json.Symbol) (backupCount : ℕ) : List (Option Json) :=
  (List.range (backupCount + 1)).reverse.flatMap (fileEntries json files)

/-- The line of a call. -/
def LogCall.line (call : LogCall) : List json.Symbol :=
  json.symbols (json.dumps none (.dict call.entry.entries)) ++ [json.newline]

end

/-- The calls that a server has logged. -/
def recorded (config : AuditFileConfig) (events : List AuditService.Event) : List LogCall :=
  if config.enabled then
    events.filterMap fun event =>
      match event with
      | .log call => some call
      | .restart => none
  else []

namespace LogCall

variable {json : JsonLines}

theorem line_ne_nil (call : LogCall) : call.line json ≠ [] := List.concat_ne_nil _ _

/-- A file of lines is cut into them. -/
theorem readLines_flatMap (calls : List LogCall) :
    readLines json (calls.flatMap (line json)) =
      calls.map fun call => json.dumps none (.dict call.entry.entries) := by
  have hsplit : splitSeq [json.newline] (calls.flatMap (line json)) =
      (calls.map fun call => json.symbols (json.dumps none (.dict call.entry.entries))) ++
        [[]] := by
    induction calls with
    | nil => rfl
    | cons call calls ih =>
      have hline : splitSeq [json.newline]
          (json.symbols (json.dumps none (.dict call.entry.entries))) =
            [json.symbols (json.dumps none (.dict call.entry.entries))] :=
        splitSeq_of_not_mem (json.newline_not_mem _)
      rw [splitSeq] at hline ih ⊢
      rw [List.flatMap_cons, line, splitSeqAux_append_sep List.not_mem_nil (Nat.zero_le _), hline,
        ih]
      rfl
  rw [readLines, hsplit, List.dropLast_concat, List.map_map]
  exact List.map_congr_left fun call _ => json.ofSymbols_symbols _

theorem fileEntries_ofChain (chain : List (List LogCall)) (i : ℕ) :
    fileEntries json (.ofChain (line json) chain) i =
      (chain[i]?.getD []).map fun call => some (.dict call.entry.entries) := by
  have hread : readLines json ((LogFiles.ofChain (line json) chain i).getD []) =
      (chain[i]?.getD []).map fun call => json.dumps none (.dict call.entry.entries) := by
    rw [LogFiles.ofChain]
    cases chain[i]? with
    | none => rfl
    | some calls => exact readLines_flatMap calls
  rw [fileEntries, hread, List.map_map]
  exact List.map_congr_left fun call _ => json.loads_dumps none _

/-- Reading all files gives the entries of the calls that they keep. -/
theorem history_ofChain {chain : List (List LogCall)} {backupCount : ℕ}
    (h : chain.length ≤ backupCount + 1) :
    history json (.ofChain (line json) chain) backupCount =
      (kept chain).map fun call => some (.dict call.entry.entries) := by
  -- the numbers behind the last file give nothing
  have hrange : ((List.range (backupCount + 1)).map fun i => chain[i]?.getD []) =
      chain ++ List.replicate (backupCount + 1 - chain.length) [] := by
    refine List.ext_getElem? fun i => ?_
    rw [List.getElem?_map]
    by_cases hi : i < chain.length
    · rw [List.getElem?_range (by omega), List.getElem?_append_left hi,
        Option.map_some, List.getElem?_eq_getElem hi, Option.getD_some]
    · rw [List.getElem?_append_right (by omega), List.getElem?_replicate]
      by_cases hlast : i < backupCount + 1
      · rw [List.getElem?_range hlast, if_pos (by omega), Option.map_some,
          List.getElem?_eq_none (by omega)]
        rfl
      · rw [List.getElem?_eq_none (by rw [List.length_range]; omega), if_neg (by omega)]
        rfl
  have hfiles : (List.range (backupCount + 1)).reverse.flatMap (fun i => chain[i]?.getD []) =
      kept chain := by
    rw [List.flatMap_def, List.map_reverse, hrange, List.reverse_append, List.reverse_replicate,
      List.flatten_append, kept]
    simp
  have hread : fileEntries json (.ofChain (line json) chain) =
      fun i => (chain[i]?.getD []).map fun call => some (.dict call.entry.entries) :=
    funext (fileEntries_ofChain chain)
  rw [history, ← hfiles, List.map_flatMap, hread]

end LogCall

/-! ### Runs -/

theorem recorded_nil (config : AuditFileConfig) : recorded config [] = [] := by
  rw [recorded]
  exact ite_self _

theorem recorded_concat (config : AuditFileConfig) (events : List AuditService.Event)
    (event : AuditService.Event) : recorded config (events ++ [event]) =
      recorded config events ++ recorded config [event] := by
  rw [recorded, recorded, recorded]
  split
  · rw [List.filterMap_append]
  · rfl

namespace AuditService

variable {json : JsonLines} {config : AuditFileConfig} {rollsEmpty : Bool}
  {service : AuditService json} {calls : List LogCall}

/-- A logger that is not enabled gives nothing to its handler. -/
theorem log_of_disabled (h : service.logger.config.enabled = false) (call : LogCall) :
    (service.log config rollsEmpty call).2 = service := by
  have hlog : service.logger.log call = (∅, service.logger) := by
    rw [AuditLogger.log, h]
    rfl
  rw [log, hlog]
  dsimp only
  rw [List.drop_length]
  rfl

/-- What there is of the calls that were logged. -/
structure Trail (config : AuditFileConfig) (rollsEmpty : Bool) (calls : List LogCall)
    (service : AuditService json) : Prop where
  config_eq : service.logger.config = config.toAuditConfig
  /-- Each file has the lines of some calls. -/
  files_eq : ∃ chain, service.files = .ofChain (LogCall.line json) chain ∧
    Rotated (config.rotation rollsEmpty) (LogCall.line json) calls chain
  buffer_eq : ∃ recent, recent <:+ calls ∧ recent.length ≤ config.bufferSize ∧
    service.logger.buffer = recent.map LogCall.entry

/-- A start keeps the files and begins with an empty buffer. -/
theorem Trail.boot (h : Trail config rollsEmpty calls service) :
    Trail config rollsEmpty calls (boot config service.files) where
  config_eq := rfl
  files_eq := by
    obtain ⟨chain, hfiles, hchain⟩ := h.files_eq
    obtain ⟨newest, older, rfl⟩ := List.exists_cons_of_ne_nil hchain.ne_nil
    refine ⟨_, ?_, hchain⟩
    have hopen : service.files 0 = some (newest.flatMap (LogCall.line json)) := by
      rw [hfiles]
      rfl
    rw [AuditService.boot, setupHandlers, hopen, ← hfiles, Option.getD_some]
    exact Function.update_eq_self_iff.mpr hopen.symm
  buffer_eq := ⟨[], List.nil_suffix, Nat.zero_le _, rfl⟩

/-- An enabled logger gives the line of a call to its handler. -/
theorem log_of_enabled (h : service.logger.config.enabled = true) (call : LogCall) :
    (service.log config rollsEmpty call).2 = ⟨(service.logger.log call).2,
      service.files.emit (config.rotation rollsEmpty) (call.line json)⟩ := by
  have hlog := @AuditLogger.log_of_enabled _ _ call h
  rw [log, hlog]
  dsimp only
  rw [List.drop_left]
  rfl

theorem Trail.log (h : Trail config rollsEmpty calls service) (henabled : config.enabled = true)
    (call : LogCall) :
    Trail config rollsEmpty (calls ++ [call]) (service.log config rollsEmpty call).2 := by
  have hon : service.logger.config.enabled = true := by rw [h.config_eq, henabled]
  have hlog := @AuditLogger.log_of_enabled _ _ call hon
  rw [log_of_enabled hon]
  refine ⟨?_, ?_, ?_⟩
  · rw [hlog]
    exact h.config_eq
  · obtain ⟨chain, hfiles, hchain⟩ := h.files_eq
    refine ⟨_, ?_, hchain.record LogCall.line_ne_nil call⟩
    rw [hfiles]
    exact LogFiles.emit_ofChain _ hchain.ne_nil hchain.length_le call
  · -- the buffer drops its oldest entries, so an end of the calls is left
    obtain ⟨recent, hrecent, -, hbuffer⟩ := h.buffer_eq
    refine ⟨(recent ++ [call]).rtake config.bufferSize, ?_, ?_, ?_⟩
    · exact (List.drop_suffix _ _).trans (List.suffix_append_self_iff.mpr hrecent)
    · rw [List.rtake, List.length_drop]
      omega
    · rw [hlog]
      dsimp only
      rw [hbuffer, h.config_eq, List.rtake, List.rtake, List.map_drop, List.map_append,
        List.length_append, List.length_append, List.length_map]
      rfl

/-- **Every run** leaves what there is of the calls that it logged. -/
theorem trail_after (json : JsonLines) (config : AuditFileConfig) (rollsEmpty : Bool)
    (events : List AuditService.Event) :
    Trail config rollsEmpty (recorded config events) (after json config rollsEmpty events) := by
  refine run_induction (P := fun events service =>
    Trail config rollsEmpty (recorded config events) service) ?_ ?_ events
  · rw [recorded_nil]
    refine ⟨rfl, ⟨[[]], ?_, Rotated.start _ _⟩, [], List.nil_suffix, Nat.zero_le _, rfl⟩
    funext i
    cases i with
    | zero => rfl
    | succ i => rfl
  · intro events event h
    generalize run (step config rollsEmpty) _ events = service at h ⊢
    rw [recorded_concat]
    cases event with
    | restart =>
      have hnothing : recorded config [.restart] = [] := recorded_nil config
      rw [hnothing, List.append_nil]
      exact h.boot
    | log call =>
      by_cases henabled : config.enabled = true
      · have hcall : recorded config [.log call] = [call] := by
          rw [recorded, if_pos henabled]
          rfl
        rw [hcall]
        exact h.log henabled call
      · have hnothing : recorded config [.log call] = [] := by
          rw [recorded, if_neg henabled]
        have hoff : service.logger.config.enabled = false := by
          rw [h.config_eq]
          exact Bool.eq_false_iff.mpr henabled
        rw [hnothing, List.append_nil]
        exact (log_of_disabled hoff call).symm ▸ h

/-! ### Main results -/

/-- **The log on the disk**: after every run, over any number of starts, the files in their order
have exactly the entries of the last calls. There are no more than `backup_count` files behind the
first one, each is smaller than `max_bytes` or has a single line, and calls are missing at the
front only while all of these files are there. -/
theorem history_spec (json : JsonLines) (config : AuditFileConfig) (rollsEmpty : Bool)
    (events : List AuditService.Event) :
    ∃ kept, kept <:+ recorded config events ∧
      history json (after json config rollsEmpty events).files config.backupCount.toNat =
        kept.map (fun call => some (.dict call.entry.entries)) ∧
      (∀ i, config.backupCount.toNat < i → (after json config rollsEmpty events).files i = none) ∧
      (0 < config.maxBytes → 0 < config.backupCount →
        ∀ i text, (after json config rollsEmpty events).files i = some text →
          (text.length : ℤ) < config.maxBytes ∨ (readLines json text).length ≤ 1) ∧
      (kept ≠ recorded config events → 0 < config.maxBytes ∧ 0 < config.backupCount ∧
        ∀ i ≤ config.backupCount.toNat, (after json config rollsEmpty events).files i ≠ none) := by
  obtain ⟨chain, hfiles, hchain⟩ := (trail_after json config rollsEmpty events).files_eq
  have hlen : chain.length ≤ config.backupCount.toNat + 1 := hchain.length_le
  rw [hfiles]
  refine ⟨kept chain, hchain.suffix, LogCall.history_ofChain hlen, fun i hi => ?_,
    fun hmax hcount i text htext => ?_, fun hne => ?_⟩
  · exact LogFiles.ofChain_eq_none (by omega)
  · obtain ⟨calls, hcalls, rfl⟩ := Option.map_eq_some_iff.mp htext
    have hsmall := hchain.small (Int.lt_toNat.mpr hmax) (Int.lt_toNat.mpr hcount) calls
      (List.mem_of_getElem? hcalls)
    rw [LogCall.readLines_flatMap, List.length_map]
    exact hsmall.imp_left Int.lt_toNat.mp
  · obtain ⟨hmax, hcount, hall⟩ := hchain.all_there hne
    refine ⟨Int.lt_toNat.mp hmax, Int.lt_toNat.mp hcount, fun i hi hnone => ?_⟩
    rw [LogFiles.ofChain, Option.map_eq_none_iff, List.getElem?_eq_none_iff, hall] at hnone
    exact absurd hnone (by dsimp only [AuditFileConfig.rotation]; omega)

/-- Calls whose lines fit into the files behind the first one, with room for one more line in each,
are on the disk. -/
theorem recent_kept {events : List AuditService.Event} {recent : List LogCall} {largest : ℕ}
    (hrecent : recent <:+ recorded config events)
    (hline : ∀ call ∈ recorded config events, (call.line json).length ≤ largest)
    (hroom : (recent.flatMap (LogCall.line json)).length ≤
      config.backupCount.toNat * (config.maxBytes.toNat - largest)) :
    (recent.map fun call => some (Value.dict call.entry.entries)) <:+
      history json (after json config rollsEmpty events).files config.backupCount.toNat := by
  obtain ⟨chain, hfiles, hchain⟩ := (trail_after json config rollsEmpty events).files_eq
  have hlen : chain.length ≤ config.backupCount.toNat + 1 := hchain.length_le
  rw [hfiles, LogCall.history_ofChain hlen]
  exact (hchain.suffix_kept LogCall.line_ne_nil hline hrecent hroom).map _

/-- **The ring buffer is on the disk**: if `buffer_size` of the longest lines fit into the files
behind the first one, with room for one more line in each, then every entry that a query can still
give is at the end of the files, in the same order. -/
theorem buffer_kept (json : JsonLines) (config : AuditFileConfig) (rollsEmpty : Bool)
    (events : List AuditService.Event) (largest : ℕ)
    (hline : ∀ call ∈ recorded config events, (call.line json).length ≤ largest)
    (hroom : config.bufferSize * largest ≤
      config.backupCount.toNat * (config.maxBytes.toNat - largest)) :
    ((after json config rollsEmpty events).logger.buffer.map fun entry =>
        some (Value.dict entry.entries)) <:+
      history json (after json config rollsEmpty events).files config.backupCount.toNat := by
  obtain ⟨recent, hrecent, hlength, hbuffer⟩ :=
    (trail_after json config rollsEmpty events).buffer_eq
  have hsize : ∀ calls : List LogCall, (∀ call ∈ calls, (call.line json).length ≤ largest) →
      (calls.flatMap (LogCall.line json)).length ≤ calls.length * largest := by
    intro calls hcalls
    induction calls with
    | nil => exact Nat.zero_le _
    | cons call calls ih =>
      rw [List.forall_mem_cons] at hcalls
      rw [List.flatMap_cons, List.length_append, List.length_cons, Nat.add_one_mul]
      have hrest := ih hcalls.2
      have hfirst := hcalls.1
      omega
  have hfits := hsize recent fun call hcall => hline call (hrecent.mem hcall)
  rw [hbuffer, List.map_map]
  exact recent_kept hrecent hline
    (hfits.trans ((Nat.mul_le_mul_right largest hlength).trans hroom))

/-- Texts identified with the documents they parse to, of which each is one character. -/
private noncomputable def documents : JsonLines where
  toJsonText := .parsed
  Symbol := Option Json
  symbol_decEq := Classical.decEq _
  newline := none
  symbols
    | none => []
    | some v => [some v]
  ofSymbols text := text.head?.join
  ofSymbols_symbols text := by cases text <;> rfl
  newline_not_mem v h := by
    have hsome : none = some v := List.mem_singleton.mp h
    cases hsome

private def bootCall (id : String) : LogCall where
  now := 0
  id := id
  eventType := "boot_request"
  mac_text := by
    intro v h
    cases h

/-- Three events, a restart, and four more. -/
private def restarted : List AuditService.Event :=
  [.log (bootCall "00"), .log (bootCall "01"), .log (bootCall "02"), .restart,
    .log (bootCall "03"), .log (bootCall "04"), .log (bootCall "05"), .log (bootCall "06")]

/-- Files for two lines each. -/
private def twoLines : AuditFileConfig where
  maxBytes := 5
  backupCount := 2
  bufferSize := 2

/-- The default settings have room for lines of half a million characters; in files for two lines
each the buffer is kept although the first events are gone. -/
theorem buffer_kept_rotated :
    1000 * 500000 ≤ 10 * (52428800 - 500000) ∧
      ((after documents twoLines true restarted).files 2).map List.length = some 4 ∧
      ((after documents twoLines true restarted).files 0).map List.length = some 2 ∧
      (after documents twoLines true restarted).logger.buffer.map (·.get? "event_id") =
        [some (.str "05"), some (.str "06")] ∧
      ((after documents twoLines true restarted).logger.buffer.map fun entry =>
          some (Value.dict entry.entries)) <:+
        history documents (after documents twoLines true restarted).files 2 := by
  have hline : ∀ call : LogCall, (call.line documents).length ≤ 2 := fun _ => le_rfl
  exact ⟨by decide, rfl, rfl, rfl,
    buffer_kept documents twoLines true restarted 2 (fun call _ => hline call) (by decide)⟩

end AuditService

end TftpOS
