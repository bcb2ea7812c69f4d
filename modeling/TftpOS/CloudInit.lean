import TftpOS.Config
import TftpOS.Lib.Splitting

/-!
# Cloud-init user-data

`_render_user_data` of `tftpos/cloud_init.py` with its template. The template writes one line for
each package and for each script of a profile, and puts the item there as it is. An item with a
line break can spell further lines of the list; the text of a list tells which pieces it has when
its items are cut where they spell such lines (`user_data_differs_iff`), and not which items.
-/

namespace TftpOS

open Lib

/-- Why a user-data text is not rendered. -/
inductive RenderError where
  /-- A Python exception. -/
  | raised (e : PyExc)
  /-- An `UndefinedError` of the template engine. -/
  | undefined (what : String)

/-- A text, or why it is not rendered. -/
abbrev Render := Except RenderError

/-- What passwords are hashed with: the salt drawn for a call and the hex digest of SHA-512. -/
structure PasswordHash where
  salt : String
  sha512 : String → String

/-- `str(v)`. -/
def valueText (toml : TomlLib) : Toml → String
  | .str s => s
  | v => toml.text v

/-! ### The values given to the template -/

/-- `_hash_password`. -/
def hashPassword (hash : PasswordHash) : Toml → Except PyExc String
  | .str plaintext => .ok ("$6$" ++ hash.salt ++ "$" ++ hash.sha512 (hash.salt ++ plaintext))
  | v => .error
      ⟨.typeError, "can only concatenate str (not \"" ++ v.qualifiedTypeName ++ "\") to str"⟩

/-- The one user of a profile that lists none. -/
def defaultUser (hash : PasswordHash) (extra : Toml) : Except PyExc Toml := do
  let name ← extra.getItem "user" (.str "admin")
  let groups ← extra.getItem "groups" (.list [.str "sudo", .str "users"])
  let shell ← extra.getItem "shell" (.str "/bin/bash")
  let sudoRule ← extra.getItem "sudo" (.str "ALL=(ALL) NOPASSWD:ALL")
  let password ← extra.getItem "password" .null
  let sshKeys ← extra.getItem "ssh_authorized_keys" (.list [])
  let user := [("name", name), ("groups", groups), ("shell", shell), ("sudo", sudoRule),
    ("lock_passwd", .bool !password.truthy)]
  let user := if sshKeys.truthy then user ++ [("ssh_authorized_keys", sshKeys)] else user
  if password.truthy then
    let passwd ← hashPassword hash password
    return .dict (user ++ [("passwd", .str passwd)])
  else return .dict user

/-- The users of a profile. -/
def profileUsers (hash : PasswordHash) (extra : Toml) : Except PyExc Toml := do
  let users ← extra.getItem "users" (.list [])
  if users.truthy then return users
  else (defaultUser hash extra).map fun user => .list [user]

/-- The values of the template. -/
structure UserDataContext where
  hostname : Toml
  fqdn : Toml
  manageEtcHosts : Toml
  users : Toml
  packages : Toml
  postScripts : Toml
  writeFiles : Toml
  timezone : Toml
  locale : Toml
  sshPwauth : Toml
  disableRoot : Toml
  finalMessage : Toml
  extraConfig : Toml

/-- The arguments of `template.render`. -/
def userDataContext (toml : TomlLib) (hash : PasswordHash) (profile : ProvisionProfile) :
    Except PyExc UserDataContext := do
  let network := profile.network
  let extra := profile.extra
  let users ← profileUsers hash extra
  let hostname ← network.getItem "hostname" profile.name
  return {
    hostname
    fqdn := ← network.getItem "fqdn" (.str (valueText toml hostname ++ ".local"))
    manageEtcHosts := ← extra.getItem "manage_etc_hosts" (.bool true)
    users
    packages := profile.packages
    postScripts := profile.postScripts
    writeFiles := ← extra.getItem "write_files" (.list [])
    timezone := ← extra.getItem "timezone" (.str "UTC")
    locale := ← extra.getItem "locale" (.str "en_US.UTF-8")
    sshPwauth := ← extra.getItem "ssh_pwauth" (.bool false)
    disableRoot := ← extra.getItem "disable_root" (.bool true)
    finalMessage := ← extra.getItem "final_message" (.str "Cloud-init complete. System is ready.")
    extraConfig := ← extra.getItem "cloud_config" (.dict []) }

/-! ### The template -/

section

variable (py : StrLib) (toml : TomlLib)

/-- `v.key` in the template, which prints nothing if it is not there. -/
def attrText (v : Toml) (key : String) : String :=
  match v with
  | .dict kvs => ((Value.lookup key kvs).map (valueText toml)).getD ""
  | _ => ""

/-- `v.get(key)` in the template. -/
def templateGet (v : Toml) (key : String) : Render Toml :=
  match v with
  | .dict kvs => .ok ((Value.lookup key kvs).getD .null)
  | _ => .error (.undefined "get")

/-- The elements a `for` of the template goes over. -/
def templateIter (v : Toml) : Render (List Toml) := v.iter.mapError .raised

/-- The filter `lower`. -/
def lowerText (v : Toml) : String := py.lower (valueText toml v)

/-- A line for each item, with the item as it is. -/
def itemLines (indent : String) (items : List Toml) : String :=
  String.join (items.map fun item => indent ++ "- " ++ valueText toml item ++ "\n")

/-- The block of a list, left out if the list is empty. -/
def listBlock (label : String) (v : Toml) : Render String :=
  if v.truthy then (templateIter v).map fun items => label ++ ":\n" ++ itemLines toml "  " items
  else .ok ""

/-- A line that is left out if its value is empty. -/
def optionalLine (label : String) (v : Toml) : String :=
  if v.truthy then label ++ ": " ++ valueText toml v ++ "\n" else ""

/-- The groups of a user, joined if they are a collection. -/
def groupsText : Toml → String
  | .list xs => ", ".intercalate (xs.map (valueText toml))
  | .dict kvs => ", ".intercalate (Dict.ofEntries kvs).keys
  | v => valueText toml v

/-- The lines of a user. -/
def userLines (user : Toml) : Render String := do
  let groups ← templateGet user "groups"
  let shell ← templateGet user "shell"
  let sudoRule ← templateGet user "sudo"
  let lockPasswd ← templateGet user "lock_passwd"
  let passwd ← templateGet user "passwd"
  let sshKeys ← templateGet user "ssh_authorized_keys"
  let keys ← if sshKeys.truthy then (templateIter sshKeys).map fun keys =>
      "    ssh_authorized_keys:\n" ++ itemLines toml "      " keys
    else .ok ""
  return "  - name: " ++ attrText toml user "name" ++ "\n" ++
    (if groups.truthy then "    groups: " ++ groupsText toml groups ++ "\n" else "") ++
    optionalLine toml "    shell" shell ++ optionalLine toml "    sudo" sudoRule ++
    (match lockPasswd with
      | .null => ""
      | v => "    lock_passwd: " ++ lowerText py toml v ++ "\n") ++
    optionalLine toml "    passwd" passwd ++ keys

/-- The content of a file, each line of it indented. -/
def contentLines : Toml → Render String
  | .str content => .ok ("    content: |\n" ++ String.join
      ((content.toList.splitOn '\n').map fun line => "      " ++ String.ofList line ++ "\n"))
  | _ => .error (.undefined "split")

/-- The lines of a file. -/
def fileLines (file : Toml) : Render String := do
  let content ← templateGet file "content"
  let lines ← if content.truthy then contentLines content else .ok ""
  let permissions ← templateGet file "permissions"
  let owner ← templateGet file "owner"
  return "  - path: " ++ attrText toml file "path" ++ "\n" ++ lines ++
    (if permissions.truthy then "    permissions: '" ++ valueText toml permissions ++ "'\n"
      else "") ++
    optionalLine toml "    owner" owner

/-- A block of lines for each element, left out if there is none. -/
def block (label : String) (lines : Toml → Render String) (v : Toml) : Render String :=
  if v.truthy then do
    let elements ← templateIter v
    let texts ← elements.mapM lines
    return label ++ ":\n" ++ String.join texts
  else .ok ""

/-- The lines of a key of `cloud_config`. -/
def configLines : String × Toml → String
  | (key, .list items) => key ++ ":\n" ++ itemLines toml "  " items
  | (key, .dict kvs) => key ++ ":\n" ++ String.join ((Dict.ofEntries kvs).entries.map fun e =>
      "  " ++ e.1 ++ ": " ++ valueText toml e.2 ++ "\n")
  | (key, v) => key ++ ": " ++ valueText toml v ++ "\n"

/-- The lines of `cloud_config`. -/
def extraLines (v : Toml) : Render String :=
  if v.truthy then
    match v with
    | .dict kvs => .ok (String.join ((Dict.ofEntries kvs).entries.map (configLines toml)))
    | _ => .error (.undefined "items")
  else .ok ""

/-- The lines of the template above its first block. -/
def headLines (context : UserDataContext) : String :=
  "#cloud-config\n\nhostname: " ++ valueText toml context.hostname ++
    "\nfqdn: " ++ valueText toml context.fqdn ++
    "\nmanage_etc_hosts: " ++ lowerText py toml context.manageEtcHosts ++ "\n\n" ++
    optionalLine toml "timezone" context.timezone ++ optionalLine toml "locale" context.locale ++
    "\nssh_pwauth: " ++ lowerText py toml context.sshPwauth ++
    "\ndisable_root: " ++ lowerText py toml context.disableRoot ++ "\n\n"

/-- The template `cloud-init-userdata.j2`. -/
def renderTemplate (context : UserDataContext) : Render String := do
  let users ← block "users" (userLines py toml) context.users
  let packages ← listBlock toml "packages" context.packages
  let writeFiles ← block "write_files" (fileLines toml) context.writeFiles
  let postScripts ← listBlock toml "runcmd" context.postScripts
  let extraConfig ← extraLines toml context.extraConfig
  return headLines py toml context ++ users ++ "\n" ++ packages ++ "\n" ++ writeFiles ++ "\n" ++
    postScripts ++ "\n" ++ extraConfig ++ "\nfinal_message: \"" ++
    valueText toml context.finalMessage ++ "\"\n"

/-- `_render_user_data`. -/
def renderUserData (hash : PasswordHash) (profile : ProvisionProfile) : Render String := do
  let context ← (userDataContext toml hash profile).mapError .raised
  renderTemplate py toml context

end

/-! ### Lists of one profile -/

section

variable {py : StrLib} {toml : TomlLib} {hash : PasswordHash} {profile : ProvisionProfile}

/-- The context takes the two lists over from the profile. -/
theorem userDataContext_lists (packages postScripts : Toml) :
    userDataContext toml hash { profile with packages := packages, postScripts := postScripts } =
      (userDataContext toml hash profile).map fun context =>
        { context with packages := packages, postScripts := postScripts } := by
  simp only [userDataContext, Lib.map_bind]
  rfl

/-- A text is rendered from the two lists and from what they have no part in. -/
theorem renderUserData_eq_ok {packages postScripts : Toml} {t : String}
    (h : renderUserData py toml hash
      { profile with packages := packages, postScripts := postScripts } = .ok t) :
    ∃ context users writeFiles extraConfig packagesText postScriptsText,
      userDataContext toml hash profile = .ok context ∧
      block "users" (userLines py toml) context.users = .ok users ∧
      block "write_files" (fileLines toml) context.writeFiles = .ok writeFiles ∧
      extraLines toml context.extraConfig = .ok extraConfig ∧
      listBlock toml "packages" packages = .ok packagesText ∧
      listBlock toml "runcmd" postScripts = .ok postScriptsText ∧
      t = headLines py toml context ++ users ++ "\n" ++ packagesText ++ "\n" ++ writeFiles ++
        "\n" ++ postScriptsText ++ "\n" ++ extraConfig ++ "\nfinal_message: \"" ++
        valueText toml context.finalMessage ++ "\"\n" := by
  rw [renderUserData, userDataContext_lists] at h
  rcases hcontext : userDataContext toml hash profile with e | context
  · rw [hcontext] at h
    cases h
  · rw [hcontext] at h
    obtain ⟨context', hsame, h⟩ := bind_eq_ok_iff.mp h
    obtain rfl := Except.ok.inj hsame
    obtain ⟨users, husers, h⟩ := bind_eq_ok_iff.mp h
    obtain ⟨packagesText, hpackages, h⟩ := bind_eq_ok_iff.mp h
    obtain ⟨writeFiles, hfiles, h⟩ := bind_eq_ok_iff.mp h
    obtain ⟨postScriptsText, hscripts, h⟩ := bind_eq_ok_iff.mp h
    obtain ⟨extraConfig, hextra, h⟩ := bind_eq_ok_iff.mp h
    exact ⟨context, users, writeFiles, extraConfig, packagesText, postScriptsText, rfl, husers,
      hfiles, hextra, hpackages, hscripts, (Except.ok.inj h).symm⟩

/-- Two texts of one profile with other lists differ in the texts of these lists alone. -/
theorem renderUserData_pair {packages postScripts packages' postScripts' : Toml} {t t' : String}
    (h : renderUserData py toml hash
      { profile with packages := packages, postScripts := postScripts } = .ok t)
    (h' : renderUserData py toml hash
      { profile with packages := packages', postScripts := postScripts' } = .ok t') :
    ∃ before between after p s p' s',
      listBlock toml "packages" packages = .ok p ∧ listBlock toml "runcmd" postScripts = .ok s ∧
      listBlock toml "packages" packages' = .ok p' ∧ listBlock toml "runcmd" postScripts' = .ok s' ∧
      t = before ++ p ++ between ++ s ++ after ∧ t' = before ++ p' ++ between ++ s' ++ after := by
  obtain ⟨context, users, files, extra, p, s, hcontext, husers, hfiles, hextra, hp, hs, rfl⟩ :=
    renderUserData_eq_ok h
  obtain ⟨context', users', files', extra', p', s', hcontext', husers', hfiles', hextra', hp', hs',
    rfl⟩ := renderUserData_eq_ok h'
  obtain rfl := Except.ok.inj (hcontext.symm.trans hcontext')
  obtain rfl := Except.ok.inj (husers.symm.trans husers')
  obtain rfl := Except.ok.inj (hfiles.symm.trans hfiles')
  obtain rfl := Except.ok.inj (hextra.symm.trans hextra')
  refine ⟨headLines py toml context ++ users ++ "\n", "\n" ++ files ++ "\n",
    "\n" ++ extra ++ "\nfinal_message: \"" ++ valueText toml context.finalMessage ++ "\"\n",
    p, s, p', s', hp, hs, hp', hs', ?_, ?_⟩ <;> simp only [String.append_assoc]

/-- A list of strings as the value of a profile. -/
def texts (items : List String) : Toml := .list (items.map .str)

/-- What starts the line of an item that is not the first one. -/
def itemBreak : List Char := "\n  - ".toList

/-- The pieces of the items of a list, each item cut where it spells the start of another one. -/
def pieces (items : List String) : List (List Char) :=
  items.flatMap fun item => splitSeq itemBreak item.toList

/-- The lines of items are the items joined. -/
theorem toList_itemLines {items : List String} (hitems : items ≠ []) :
    (itemLines toml "  " (items.map .str)).toList =
      "  - ".toList ++ itemBreak.intercalate (items.map String.toList) ++ ['\n'] := by
  induction items with
  | nil => exact absurd rfl hitems
  | cons item items ih =>
    have hcons : (itemLines toml "  " ((item :: items).map .str)).toList =
        "  - ".toList ++ item.toList ++ '\n' :: (itemLines toml "  " (items.map .str)).toList := by
      simp [itemLines, valueText]
    by_cases hrest : items = []
    · subst hrest
      rw [hcons, List.map_singleton, List.intercalate_singleton]
      rfl
    · have hne : items.map String.toList ≠ [] := by simpa using hrest
      rw [hcons, ih hrest, List.map_cons, List.intercalate_cons_of_ne_nil hne]
      simp [itemBreak]

/-- Two lists of items have the same lines exactly if they have the same pieces. -/
theorem itemLines_eq_iff {items items' : List String} (h : items ≠ []) (h' : items' ≠ []) :
    itemLines toml "  " (items.map .str) = itemLines toml "  " (items'.map .str) ↔
      pieces items = pieces items' := by
  have hnl : '\n' ∉ "  - ".toList := by decide
  have hcut := @intercalate_eq_iff Char '\n' "  - ".toList _ hnl (items.map String.toList)
    (items'.map String.toList) (by simpa using h) (by simpa using h')
  rw [← String.toList_inj, toList_itemLines h, toList_itemLines h', List.append_left_inj,
    List.append_right_inj]
  rw [List.flatMap_map, List.flatMap_map] at hcut
  exact hcut

theorem listBlock_texts {label : String} {items : List String} (h : items ≠ []) :
    listBlock toml label (texts items) =
      .ok (label ++ ":\n" ++ itemLines toml "  " (items.map .str)) := by
  have htruthy : (texts items).truthy = true := by simpa [texts, Value.truthy] using h
  rw [listBlock, if_pos htruthy]
  rfl

/-- Two texts that differ in a list of the profile. -/
theorem listBlock_eq_iff {label text text' : String} {items items' : List String}
    (h : items ≠ []) (h' : items' ≠ []) (htext : listBlock toml label (texts items) = .ok text)
    (htext' : listBlock toml label (texts items') = .ok text') :
    text = text' ↔ pieces items = pieces items' := by
  rw [listBlock_texts h] at htext
  rw [listBlock_texts h'] at htext'
  rw [← Except.ok.inj htext, ← Except.ok.inj htext', String.append_right_inj, itemLines_eq_iff h h']

end

/-- **User-data and its lists**: two texts of a profile that differ in the scripts alone, and in
the packages alone, are different exactly where cutting the items, wherever they spell the start
of another item, gives different pieces. -/
theorem user_data_differs_iff (py : StrLib) (toml : TomlLib) (hash : PasswordHash)
    (profile : ProvisionProfile) (items items' : List String) (t t' : String) (hne : items ≠ [])
    (hne' : items' ≠ []) :
    (renderUserData py toml hash { profile with postScripts := texts items } = .ok t →
      renderUserData py toml hash { profile with postScripts := texts items' } = .ok t' →
        (t ≠ t' ↔ pieces items ≠ pieces items')) ∧
    (renderUserData py toml hash { profile with packages := texts items } = .ok t →
      renderUserData py toml hash { profile with packages := texts items' } = .ok t' →
        (t ≠ t' ↔ pieces items ≠ pieces items')) := by
  constructor
  · intro h h'
    obtain ⟨before, between, after, p, s, p', s', hp, hs, hp', hs', rfl, rfl⟩ :=
      renderUserData_pair h h'
    obtain rfl := Except.ok.inj (hp.symm.trans hp')
    rw [not_iff_not, ← listBlock_eq_iff hne hne' hs hs', String.append_left_inj,
      String.append_right_inj]
  · intro h h'
    obtain ⟨before, between, after, p, s, p', s', hp, hs, hp', hs', rfl, rfl⟩ :=
      renderUserData_pair h h'
    obtain rfl := Except.ok.inj (hs.symm.trans hs')
    rw [not_iff_not, ← listBlock_eq_iff hne hne' hp hp', String.append_left_inj,
      String.append_left_inj, String.append_left_inj, String.append_right_inj]

/-! ### A profile whose scripts spell a list -/

/-- The texts of the values of a profile that sets nothing but its lists. -/
def plainToml : TomlLib where
  loads _ := .error (.malformed "")
  text v := match v with
    | .bool true => "True"
    | .bool false => "False"
    | _ => ""
  repr _ := ""

/-- A profile with a list of scripts. -/
def scripted (items : List String) : ProvisionProfile where
  name := .str "node"
  osFamily := .str "openwrt"
  osVersion := .str "23.05"
  postScripts := texts items

/-- One script and two, and one package and two, with different texts. -/
theorem user_data_differs_iff_lab :
    (∃ t t', renderUserData .ascii plainToml ⟨"00", fun s => s⟩ (scripted ["ls"]) = .ok t ∧
      renderUserData .ascii plainToml ⟨"00", fun s => s⟩ (scripted ["ls", "id"]) = .ok t' ∧
      t ≠ t') ∧
    ∃ t t', renderUserData .ascii plainToml ⟨"00", fun s => s⟩
        { scripted ["ls"] with packages := texts ["vim"] } = .ok t ∧
      renderUserData .ascii plainToml ⟨"00", fun s => s⟩
        { scripted ["ls"] with packages := texts ["vim", "git"] } = .ok t' ∧ t ≠ t' := by
  have hscripts : pieces ["ls"] ≠ pieces ["ls", "id"] := by decide +kernel
  have hpackages : pieces ["vim"] ≠ pieces ["vim", "git"] := by decide +kernel
  refine ⟨⟨_, _, rfl, rfl, ?_⟩, _, _, rfl, rfl, ?_⟩
  · exact ((user_data_differs_iff .ascii plainToml ⟨"00", fun s => s⟩ (scripted []) ["ls"]
      ["ls", "id"] _ _ (List.cons_ne_nil _ _) (List.cons_ne_nil _ _)).1 rfl rfl).mpr hscripts
  · exact ((user_data_differs_iff .ascii plainToml ⟨"00", fun s => s⟩ (scripted ["ls"]) ["vim"]
      ["vim", "git"] _ _ (List.cons_ne_nil _ _) (List.cons_ne_nil _ _)).2 rfl rfl).mpr hpackages

/-- One script and two, with the same text. -/
theorem one_script_is_two :
    ["true\n  - reboot"] ≠ ["true", "reboot"] ∧
    ∃ t, renderUserData .ascii plainToml ⟨"00", fun s => s⟩ (scripted ["true\n  - reboot"]) =
        .ok t ∧
      renderUserData .ascii plainToml ⟨"00", fun s => s⟩ (scripted ["true", "reboot"]) = .ok t :=
  ⟨by decide, _, rfl, by rfl⟩

end TftpOS
