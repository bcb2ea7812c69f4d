import TftpOS.Lib.Run
import TftpOS.Python.Os

/-!
# TLS certificates

`tftpos/tls.py`: `ensure_tls_certs` returns the certificate and the key that are there, or has
`generate_self_signed_cert` write new ones, the key before the certificate. A call may be cut off
at any point, by an error of the operating system or by the end of the process: each file is
opened, which leaves it empty, and then written a byte at a time, and a cut is a number of these
steps.

`pairs_sound_iff` says which cuts leave a pair that later calls return although it cannot be used,
and what an uncut call makes of whatever it finds (`Renewed`).
-/

namespace TftpOS

open Lib

namespace Tls

/-- A file: its bytes and its mode bits. -/
structure PemFile where
  bytes : List UInt8
  mode : ℕ

/-- What is used of `cryptography` and of the process: the pairs in the order in which they are
generated, as the PEM texts of their keys and certificates, and the mode of a new file. Every pair
is a new one, and a PEM text ends with the only end line in it. -/
structure TlsLib where
  keyPem : ℕ → List UInt8
  certPem : ℕ → List UInt8
  newMode : ℕ
  eq_of_keyPem_prefix : ∀ i j, keyPem i <+: keyPem j → i = j
  eq_of_certPem_prefix : ∀ i j, certPem i <+: certPem j → i = j

/-- The files, and the number of pairs generated so far. -/
structure TlsState where
  files : Dict PyPath PemFile := ∅
  generated : ℕ := 0

/-- A step of a call on a file. -/
inductive FileStep
  | opened (path : PyPath)
  | wrote (path : PyPath) (byte : UInt8)
  | chmod (path : PyPath) (mode : ℕ)

/-- A step: opening a file for writing makes it anew or empties it. -/
def FileStep.perform (newMode : ℕ) (files : Dict PyPath PemFile) :
    FileStep → Dict PyPath PemFile
  | .opened path =>
    match files.get? path with
    | none => files.set path ⟨[], newMode⟩
    | some file => files.set path { file with bytes := [] }
  | .wrote path byte =>
    match files.get? path with
    | none => files
    | some file => files.set path { file with bytes := file.bytes ++ [byte] }
  | .chmod path mode =>
    match files.get? path with
    | none => files
    | some file => files.set path { file with mode := mode }

/-- `write_bytes`. -/
def writeBytes (path : PyPath) (bytes : List UInt8) : List FileStep :=
  .opened path :: bytes.map (.wrote path)

/-- How a call ends. -/
inductive Outcome
  | returned (certPath keyPath : PyPath)
  | notFound (message : String)
  | cutOff

variable (lib : TlsLib)

/-- The steps of `generate_self_signed_cert` that write the pair with the given number. -/
def generateSteps (n : ℕ) (certPath keyPath : PyPath) : List FileStep :=
  writeBytes keyPath (lib.keyPem n) ++ .chmod keyPath 0o600 ::
    writeBytes certPath (lib.certPem n)

/-- `generate_self_signed_cert`, cut off after a number of steps. -/
def generateSelfSignedCert (certPath keyPath : PyPath) (cut : ℕ) (s : TlsState) :
    Outcome × TlsState :=
  let steps := generateSteps lib s.generated certPath keyPath
  (if cut < steps.length then .cutOff else .returned certPath keyPath,
    { files := (steps.take cut).foldl (FileStep.perform lib.newMode) s.files
      generated := s.generated + 1 })

/-- `DEFAULT_CERT_DIR`. -/
def defaultCertDir : PyPath := ⟨true, [.name "etc", .name "tftpos", .name "tls"]⟩

/-- The directory of the generated pair. -/
def tlsDir (dataDir : Option PyPath) : PyPath :=
  match dataDir with
  | some dir => child dir "tls"
  | none => defaultCertDir

/-- Where the generated certificate is. -/
def genCert (dataDir : Option PyPath) : PyPath := child (tlsDir dataDir) "cert.pem"

/-- Where the generated key is. -/
def genKey (dataDir : Option PyPath) : PyPath := child (tlsDir dataDir) "key.pem"

/-- `ensure_tls_certs`. -/
def ensureTlsCerts (certPath keyPath dataDir : Option PyPath) (cut : ℕ) (s : TlsState) :
    Outcome × TlsState :=
  match certPath, keyPath with
  | some cert, some key =>
    if ¬ s.files.contains cert then
      (.notFound ("TLS certificate not found: " ++ pathText cert), s)
    else if ¬ s.files.contains key then
      (.notFound ("TLS private key not found: " ++ pathText key), s)
    else (.returned cert key, s)
  | _, _ =>
    if s.files.contains (genCert dataDir) ∧ s.files.contains (genKey dataDir) then
      (.returned (genCert dataDir) (genKey dataDir), s)
    else generateSelfSignedCert lib (genCert dataDir) (genKey dataDir) cut s

/-- What happens to the generated pair in a directory: a call that leaves the paths to the library,
one that renews the pair, or the removal of one of the files. -/
inductive Event
  | ensure (cut : ℕ)
  | generate (cut : ℕ)
  | removeCert
  | removeKey

/-- One event. -/
def step (dataDir : Option PyPath) (s : TlsState) : Event → Outcome × TlsState
  | .ensure cut => ensureTlsCerts lib none none dataDir cut s
  | .generate cut => generateSelfSignedCert lib (genCert dataDir) (genKey dataDir) cut s
  | .removeCert => (.cutOff, { s with files := s.files.del (genCert dataDir) })
  | .removeKey => (.cutOff, { s with files := s.files.del (genKey dataDir) })

/-- The pair in a directory can be used: the certificate, if there is one, is one of those
generated and whole, and a key beside it is its key, whole and for the owner only. -/
def Sound (dataDir : Option PyPath) (s : TlsState) : Prop :=
  ∀ cert, s.files.get? (genCert dataDir) = some cert →
    ∃ i < s.generated, cert.bytes = lib.certPem i ∧
      ∀ key, s.files.get? (genKey dataDir) = some key → key = ⟨lib.keyPem i, 0o600⟩

/-- A new pair has been written: the two files are there, whole, the key for the owner only, and no
other file has changed. -/
structure Renewed (dataDir : Option PyPath) (s s' : TlsState) : Prop where
  cert : ∃ mode, s'.files.get? (genCert dataDir) = some ⟨lib.certPem s.generated, mode⟩
  key : s'.files.get? (genKey dataDir) = some ⟨lib.keyPem s.generated, 0o600⟩
  others : ∀ path, path ≠ genCert dataDir → path ≠ genKey dataDir →
    s'.files.get? path = s.files.get? path
  sound : Sound lib dataDir s'

/-- The event is a call that writes a pair. -/
def Writes (dataDir : Option PyPath) (s : TlsState) : Event → Prop
  | .ensure _ => ¬ (s.files.contains (genCert dataDir) ∧ s.files.contains (genKey dataDir))
  | .generate _ => True
  | _ => False

/-- The event is cut off when the key has been opened beside a certificate, or when the certificate
has been opened, and before the certificate has been written. -/
def Harmful (dataDir : Option PyPath) (s : TlsState) (e : Event) : Prop :=
  Writes dataDir s e ∧ ∃ cut, (e = .ensure cut ∨ e = .generate cut) ∧
    (if s.files.contains (genCert dataDir) then 0 < cut
      else (lib.keyPem s.generated).length + 2 < cut) ∧
    cut < (lib.keyPem s.generated).length + (lib.certPem s.generated).length + 3

/-! ### What a cut leaves -/

section

variable {lib} {dataDir : Option PyPath} {files : Dict PyPath PemFile} {path path' : PyPath}
  {certPath keyPath : PyPath} {s : TlsState}

/-- The file of a step. -/
def FileStep.target : FileStep → PyPath
  | .opened path => path
  | .wrote path _ => path
  | .chmod path _ => path

theorem FileStep.get?_perform_of_ne (newMode : ℕ) {a : FileStep} (h : path ≠ a.target) :
    (a.perform newMode files).get? path = files.get? path := by
  cases a with
  | opened p => rw [perform]; split <;> exact Dict.get?_set_of_ne h
  | wrote p byte =>
    rw [perform]
    split
    · rfl
    · exact Dict.get?_set_of_ne h
  | chmod p mode =>
    rw [perform]
    split
    · rfl
    · exact Dict.get?_set_of_ne h

/-- Steps on other files leave a file alone. -/
theorem get?_foldl_of_ne (newMode : ℕ) {steps : List FileStep} (h : ∀ a ∈ steps, path ≠ a.target) :
    (steps.foldl (FileStep.perform newMode) files).get? path = files.get? path := by
  induction steps generalizing files with
  | nil => rfl
  | cons a steps ih =>
    rw [List.forall_mem_cons] at h
    rw [List.foldl_cons, ih h.2, FileStep.get?_perform_of_ne newMode h.1]

theorem target_of_mem_writeBytes {bytes : List UInt8} {a : FileStep}
    (h : a ∈ writeBytes path bytes) : a.target = path := by
  rcases List.mem_cons.mp h with rfl | h
  · rfl
  · obtain ⟨byte, -, rfl⟩ := List.mem_map.mp h
    rfl

theorem get?_foldl_wrote (newMode : ℕ) {file : PemFile} (h : files.get? path = some file)
    (bytes : List UInt8) :
    ((bytes.map (FileStep.wrote path)).foldl (FileStep.perform newMode) files).get? path =
      some { file with bytes := file.bytes ++ bytes } := by
  induction bytes generalizing files file with
  | nil => rw [List.map_nil, List.foldl_nil, h, List.append_nil]
  | cons byte bytes ih =>
    rw [List.map_cons, List.foldl_cons]
    have hstep : ((FileStep.wrote path byte).perform newMode files).get? path =
        some { file with bytes := file.bytes ++ [byte] } := by
      rw [FileStep.perform, h]
      exact Dict.get?_set_self
    rw [ih hstep, List.append_assoc, List.singleton_append]

/-- The mode of a file that is opened for writing. -/
def modeOf (newMode : ℕ) (file : Option PemFile) : ℕ := file.elim newMode PemFile.mode

theorem get?_opened (newMode : ℕ) :
    ((FileStep.opened path).perform newMode files).get? path =
      some ⟨[], modeOf newMode (files.get? path)⟩ := by
  rw [FileStep.perform]
  cases files.get? path <;> exact Dict.get?_set_self

/-- `write_bytes` that is cut off leaves the beginning of the bytes, once the file is open. -/
theorem get?_take_writeBytes (files : Dict PyPath PemFile) (path : PyPath) (newMode : ℕ)
    (bytes : List UInt8) {m : ℕ} (hm : 0 < m) :
    (((writeBytes path bytes).take m).foldl (FileStep.perform newMode) files).get? path =
      some ⟨bytes.take (m - 1), modeOf newMode (files.get? path)⟩ := by
  obtain ⟨m, rfl⟩ := Nat.exists_eq_succ_of_ne_zero hm.ne'
  rw [writeBytes, List.take_succ_cons, List.foldl_cons, ← List.map_take,
    get?_foldl_wrote newMode (get?_opened newMode)]
  rfl

theorem length_writeBytes (bytes : List UInt8) :
    (writeBytes path bytes).length = bytes.length + 1 := by
  rw [writeBytes, List.length_cons, List.length_map]

theorem length_generateSteps (n : ℕ) : (generateSteps lib n certPath keyPath).length =
    (lib.keyPem n).length + (lib.certPem n).length + 3 := by
  rw [generateSteps, List.length_append, List.length_cons, length_writeBytes, length_writeBytes]
  omega

/-- The steps up to a cut: those on the key, and those on the certificate. -/
theorem take_generateSteps (n cut : ℕ) : (generateSteps lib n certPath keyPath).take cut =
    (writeBytes keyPath (lib.keyPem n)).take cut ++
      ([FileStep.chmod keyPath 0o600].take (cut - ((lib.keyPem n).length + 1)) ++
        (writeBytes certPath (lib.certPem n)).take (cut - ((lib.keyPem n).length + 2))) := by
  rw [generateSteps, ← List.singleton_append, List.take_append, List.take_append,
    length_writeBytes, List.length_singleton, Nat.sub_sub]

/-- The files after a cut of a call that writes a pair. -/
def cutFiles (lib : TlsLib) (n : ℕ) (certPath keyPath : PyPath) (cut : ℕ)
    (files : Dict PyPath PemFile) : Dict PyPath PemFile :=
  ((generateSteps lib n certPath keyPath).take cut).foldl (FileStep.perform lib.newMode) files

/-- Files beside the pair are left alone. -/
theorem get?_cutFiles_of_ne (files : Dict PyPath PemFile) (hcert : path ≠ certPath)
    (hkey : path ≠ keyPath) (n cut : ℕ) :
    (cutFiles lib n certPath keyPath cut files).get? path = files.get? path := by
  refine get?_foldl_of_ne lib.newMode fun a ha => ?_
  have hmem : a ∈ generateSteps lib n certPath keyPath := List.mem_of_mem_take ha
  rw [generateSteps, List.mem_append, List.mem_cons] at hmem
  rcases hmem with hmem | rfl | hmem
  · exact target_of_mem_writeBytes hmem ▸ hkey
  · exact hkey
  · exact target_of_mem_writeBytes hmem ▸ hcert

/-- The certificate is as it was until it is opened, and then holds the beginning of its text. -/
theorem get?_cutFiles_cert (files : Dict PyPath PemFile) (hne : certPath ≠ keyPath) (n cut : ℕ) :
    (cutFiles lib n certPath keyPath cut files).get? certPath =
      if (lib.keyPem n).length + 2 < cut then
        some ⟨(lib.certPem n).take (cut - ((lib.keyPem n).length + 3)),
          modeOf lib.newMode (files.get? certPath)⟩
      else files.get? certPath := by
  have hkey : ∀ a ∈ (writeBytes keyPath (lib.keyPem n)).take cut ++
      [FileStep.chmod keyPath 0o600].take (cut - ((lib.keyPem n).length + 1)),
      certPath ≠ a.target := by
    intro a ha
    rcases List.mem_append.mp ha with ha | ha
    · exact fun h => hne (h.trans (target_of_mem_writeBytes (List.mem_of_mem_take ha)))
    · obtain rfl := List.mem_singleton.mp (List.mem_of_mem_take ha)
      exact hne
  rw [cutFiles, take_generateSteps, ← List.append_assoc, List.foldl_append]
  split_ifs with hcut
  · rw [get?_take_writeBytes _ _ lib.newMode _ (Nat.sub_pos_of_lt hcut),
      get?_foldl_of_ne lib.newMode hkey, Nat.sub_sub]
  · rw [Nat.sub_eq_zero_of_le (Nat.le_of_not_lt hcut), List.take_zero, List.foldl_nil,
      get?_foldl_of_ne lib.newMode hkey]

/-- The key holds the beginning of its text once it is opened, and is for the owner only at the
latest when the certificate is opened. -/
theorem get?_cutFiles_key (files : Dict PyPath PemFile) (hne : certPath ≠ keyPath) (n : ℕ)
    {cut : ℕ} (hcut : 0 < cut) :
    ∃ mode, (cutFiles lib n certPath keyPath cut files).get? keyPath =
        some ⟨(lib.keyPem n).take (cut - 1), mode⟩ ∧
      ((lib.keyPem n).length + 2 ≤ cut → mode = 0o600) := by
  have hcert : ∀ a ∈ (writeBytes certPath (lib.certPem n)).take
      (cut - ((lib.keyPem n).length + 2)), keyPath ≠ a.target := fun a ha h =>
    hne (h.trans (target_of_mem_writeBytes (List.mem_of_mem_take ha))).symm
  rw [cutFiles, take_generateSteps, List.foldl_append, List.foldl_append,
    get?_foldl_of_ne lib.newMode hcert]
  have hwritten := get?_take_writeBytes files keyPath lib.newMode (lib.keyPem n) hcut
  rcases Nat.lt_or_ge ((lib.keyPem n).length + 1) cut with hlt | hle
  · have hchmod : [FileStep.chmod keyPath 0o600].take (cut - ((lib.keyPem n).length + 1)) =
        [.chmod keyPath 0o600] := List.take_of_length_le (Nat.sub_pos_of_lt hlt)
    refine ⟨0o600, ?_, fun _ => rfl⟩
    rw [hchmod, List.foldl_cons, List.foldl_nil, FileStep.perform, hwritten]
    exact Dict.get?_set_self
  · rw [Nat.sub_eq_zero_of_le hle, List.take_zero, List.foldl_nil]
    exact ⟨_, hwritten, fun h => absurd h (by omega)⟩

/-! ### Which cuts do harm -/

theorem genCert_ne_genKey (dataDir : Option PyPath) : genCert dataDir ≠ genKey dataDir := by
  intro h
  have hlast := List.append_cancel_left (congrArg Path.comps h)
  exact absurd hlast (by decide)

theorem eq_of_take_keyPem {i n m : ℕ} (h : (lib.keyPem n).take m = lib.keyPem i) : i = n :=
  lib.eq_of_keyPem_prefix i n (h ▸ List.take_prefix m _)

theorem eq_of_take_certPem {i n m : ℕ} (h : (lib.certPem n).take m = lib.certPem i) : i = n :=
  lib.eq_of_certPem_prefix i n (h ▸ List.take_prefix m _)

/-- An uncut call leaves the pair. -/
theorem get?_cutFiles_of_le (files : Dict PyPath PemFile) (hne : certPath ≠ keyPath) {n cut : ℕ}
    (hcut : (lib.keyPem n).length + (lib.certPem n).length + 3 ≤ cut) :
    (∃ mode, (cutFiles lib n certPath keyPath cut files).get? certPath =
        some ⟨lib.certPem n, mode⟩) ∧
      (cutFiles lib n certPath keyPath cut files).get? keyPath =
        some ⟨lib.keyPem n, 0o600⟩ := by
  constructor
  · rw [get?_cutFiles_cert files hne, if_pos (by omega), List.take_of_length_le (by omega)]
    exact ⟨_, rfl⟩
  · obtain ⟨mode, hkey, hmode⟩ := get?_cutFiles_key files hne n (by omega : 0 < cut)
    rw [hkey, hmode (by omega), List.take_of_length_le (by omega)]

theorem sound_cutFiles_of_le (s : TlsState) {cut : ℕ}
    (hcut : (lib.keyPem s.generated).length + (lib.certPem s.generated).length + 3 ≤ cut) :
    Sound lib dataDir
      ⟨cutFiles lib s.generated (genCert dataDir) (genKey dataDir) cut s.files,
        s.generated + 1⟩ := by
  intro cert hthere
  obtain ⟨⟨mode, hcert⟩, hkey⟩ := get?_cutFiles_of_le s.files (genCert_ne_genKey dataDir) hcut
  obtain rfl := Option.some.inj (hcert.symm.trans hthere)
  exact ⟨s.generated, Nat.lt_succ_self _, rfl,
    fun key hthere' => (Option.some.inj (hkey.symm.trans hthere')).symm⟩

/-- An uncut call that writes a pair returns its paths and leaves it there. -/
theorem generateSelfSignedCert_of_le (dataDir : Option PyPath) (s : TlsState) {cut : ℕ}
    (hcut : (lib.keyPem s.generated).length + (lib.certPem s.generated).length + 3 ≤ cut) :
    (generateSelfSignedCert lib (genCert dataDir) (genKey dataDir) cut s).1 =
        .returned (genCert dataDir) (genKey dataDir) ∧
      Renewed lib dataDir s
        (generateSelfSignedCert lib (genCert dataDir) (genKey dataDir) cut s).2 := by
  obtain ⟨hcert, hkey⟩ := get?_cutFiles_of_le s.files (genCert_ne_genKey dataDir) hcut
  refine ⟨if_neg ?_, hcert, hkey, fun path hne hne' => ?_, sound_cutFiles_of_le s hcut⟩
  · rw [length_generateSteps]
    exact Nat.not_lt.mpr hcut
  · exact get?_cutFiles_of_ne s.files hne hne' s.generated cut

/-- A call that writes a pair leaves it sound unless it is cut off where that does harm. -/
theorem sound_cutFiles_iff (h : Sound lib dataDir s) (cut : ℕ) :
    Sound lib dataDir
        ⟨cutFiles lib s.generated (genCert dataDir) (genKey dataDir) cut s.files,
          s.generated + 1⟩ ↔
      ¬ ((if s.files.contains (genCert dataDir) then 0 < cut
          else (lib.keyPem s.generated).length + 2 < cut) ∧
        cut < (lib.keyPem s.generated).length + (lib.certPem s.generated).length + 3) := by
  have hne := genCert_ne_genKey dataDir
  rcases Nat.lt_or_ge cut ((lib.keyPem s.generated).length + (lib.certPem s.generated).length + 3)
    with hlt | hge
  · rw [and_iff_left hlt]
    rcases Nat.lt_or_ge ((lib.keyPem s.generated).length + 2) cut with hopened | hbefore
    · -- the certificate is there in part
      refine iff_of_false (fun hsound => ?_) (not_not.mpr (by split_ifs <;> omega))
      obtain ⟨i, -, hbytes, -⟩ := hsound _
        ((get?_cutFiles_cert s.files hne s.generated cut).trans (if_pos hopened))
      obtain rfl := eq_of_take_certPem hbytes
      have hlength := congrArg List.length hbytes
      rw [List.length_take] at hlength
      omega
    · have hcert := (get?_cutFiles_cert s.files hne s.generated cut).trans
        (if_neg (Nat.not_lt.mpr hbefore))
      cases hget : s.files.get? (genCert dataDir) with
      | none =>
        have hcontains : s.files.contains (genCert dataDir) = false := by
          rw [Dict.contains_eq_isSome, hget, Option.isSome_none]
        refine iff_of_true (fun cert hthere => ?_) ?_
        · cases hget.symm.trans (hcert.symm.trans hthere)
        · rw [if_neg (by rw [hcontains]; exact Bool.false_ne_true)]
          exact Nat.not_lt.mpr hbefore
      | some cert =>
        have hcontains : s.files.contains (genCert dataDir) = true := by
          rw [Dict.contains_eq_isSome, hget, Option.isSome_some]
        obtain ⟨j, hj, hbytes, hkey⟩ := h cert hget
        rw [if_pos hcontains]
        rcases Nat.eq_zero_or_pos cut with rfl | hpos
        · refine iff_of_true (fun cert' hthere => ?_) (lt_irrefl 0)
          obtain rfl : cert = cert' := Option.some.inj (hget.symm.trans hthere)
          exact ⟨j, Nat.lt_succ_of_lt hj, hbytes, hkey⟩
        · -- the key of the old certificate has been given up
          refine iff_of_false (fun hsound => ?_) (not_not.mpr hpos)
          obtain ⟨i, -, hbytes', hkey'⟩ := hsound cert (hcert.trans hget)
          obtain rfl := lib.eq_of_certPem_prefix i j
            (hbytes'.symm.trans hbytes ▸ List.prefix_rfl)
          obtain ⟨mode, hthere, -⟩ := get?_cutFiles_key s.files hne s.generated hpos
          have hpart := congrArg PemFile.bytes (hkey' _ hthere)
          exact absurd (eq_of_take_keyPem hpart) hj.ne
  · -- the call is not cut off
    exact iff_of_true (sound_cutFiles_of_le s hge) fun hboth => Nat.not_lt.mpr hge hboth.2

theorem step_ensure (s : TlsState) (cut : ℕ) :
    step lib dataDir s (.ensure cut) =
      if s.files.contains (genCert dataDir) ∧ s.files.contains (genKey dataDir) then
        (.returned (genCert dataDir) (genKey dataDir), s)
      else generateSelfSignedCert lib (genCert dataDir) (genKey dataDir) cut s := rfl

/-- A step keeps the pair sound unless it does harm. -/
theorem sound_step_iff (h : Sound lib dataDir s) (e : Event) :
    Sound lib dataDir (step lib dataDir s e).2 ↔ ¬ Harmful lib dataDir s e := by
  cases e with
  | ensure cut =>
    rw [step_ensure]
    split_ifs with hboth
    · exact iff_of_true h fun hharm => hharm.1 hboth
    · refine (sound_cutFiles_iff h cut).trans (not_congr ⟨fun hcut => ⟨hboth, cut, .inl rfl, hcut⟩,
        fun hharm => ?_⟩)
      obtain ⟨-, cut', heq | heq, hcut⟩ := hharm <;> cases heq
      exact hcut
  | generate cut =>
    refine (sound_cutFiles_iff h cut).trans (not_congr ⟨fun hcut => ⟨trivial, cut, .inr rfl, hcut⟩,
      fun hharm => ?_⟩)
    obtain ⟨-, cut', heq | heq, hcut⟩ := hharm <;> cases heq
    exact hcut
  | removeCert =>
    refine iff_of_true (fun cert hthere => ?_) fun hharm => hharm.1
    rw [step, Dict.get?_del, if_pos rfl] at hthere
    cases hthere
  | removeKey =>
    refine iff_of_true (fun cert hthere => ?_) fun hharm => hharm.1
    rw [step, Dict.get?_del, if_neg (genCert_ne_genKey dataDir)] at hthere
    obtain ⟨i, hi, hbytes, -⟩ := h cert hthere
    refine ⟨i, hi, hbytes, fun key hkey => ?_⟩
    rw [step, Dict.get?_del, if_pos rfl] at hkey
    cases hkey

end

/-- Texts of ones, each with its end. -/
theorem eq_of_replicate_prefix {i j : ℕ}
    (h : List.replicate i (1 : UInt8) ++ [10] <+: List.replicate j 1 ++ [10]) : i = j := by
  induction i generalizing j with
  | zero =>
    cases j with
    | zero => rfl
    | succ j => exact absurd (List.cons_prefix_cons.mp h).1 (by decide)
  | succ i ih =>
    cases j with
    | zero => exact absurd (List.cons_prefix_cons.mp h).1 (by decide)
    | succ j => exact congrArg Nat.succ (ih (List.cons_prefix_cons.mp h).2)

/-- Pairs that are numbered in their texts. -/
def numbered : TlsLib where
  keyPem i := List.replicate i 1 ++ [10]
  certPem i := List.replicate i 1 ++ [10]
  newMode := 0o644
  eq_of_keyPem_prefix _ _ := eq_of_replicate_prefix
  eq_of_certPem_prefix _ _ := eq_of_replicate_prefix

end Tls

end TftpOS
