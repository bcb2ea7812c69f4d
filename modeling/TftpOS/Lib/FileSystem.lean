import TftpOS.Lib.Dict

/-!
# File systems with symbolic links

A `FileSystem` is a finite tree of files, directories and symbolic links. A location is the
list of names from a node up to the root, innermost first, so the directory that contains a
node is the tail of its location. That this directory exists is a field of the structure, so
every operation below keeps the tree a tree.

A `Path` is what programs write: absolute or relative, with names and steps up. What a path
leads to is the subject of `TftpOS.Lib.Resolution`.
-/

namespace Lib

/-- A component of a path: a name, or a step up. -/
inductive Comp (ν : Type) where
  | up
  | name (n : ν)
  deriving DecidableEq

/-- A path, from the root or from a current directory. -/
@[ext]
structure Path (ν : Type) where
  absolute : Bool
  comps : List (Comp ν)
  deriving DecidableEq

/-- A location: the names from a node up to the root. -/
abbrev Loc (ν : Type) := List ν

/-- What a location holds. -/
inductive Node (ν β : Type) where
  | file (bytes : β)
  | dir
  | link (target : Path ν)

/-- A finite tree of nodes. -/
@[ext]
structure FileSystem (ν β : Type) [DecidableEq ν] where
  nodes : Dict (Loc ν) (Node ν β)
  root : nodes.get? [] = some .dir
  /-- Whatever is there is in a directory. -/
  parent : ∀ n l, (nodes.get? (n :: l)).isSome → nodes.get? l = some .dir

/-- The location of the directory of a path's first component. -/
def Path.base {ν : Type} (p : Path ν) (cur : Loc ν) : Loc ν := if p.absolute then [] else cur

namespace FileSystem

variable {ν β : Type} [DecidableEq ν]

/-- The file system with nothing but its root. -/
def empty : FileSystem ν β where
  nodes := Dict.ofEntries [([], .dir)]
  root := rfl
  parent n l h := by cases h

/-- The node at a location. -/
def get? (fs : FileSystem ν β) (l : Loc ν) : Option (Node ν β) := fs.nodes.get? l

/-- A directory is there. -/
def isDir (fs : FileSystem ν β) (l : Loc ν) : Bool :=
  match fs.get? l with
  | some .dir => true
  | _ => false

/-- A link is there. -/
def isLink (fs : FileSystem ν β) (l : Loc ν) : Bool :=
  match fs.get? l with
  | some (.link _) => true
  | _ => false

/-- The bytes of the file that is there. -/
def bytes? (fs : FileSystem ν β) (l : Loc ν) : Option β :=
  match fs.get? l with
  | some (.file b) => some b
  | _ => none

variable {fs : FileSystem ν β} {l m : Loc ν} {n : ν} {node : Node ν β}

theorem isDir_iff : fs.isDir l = true ↔ fs.get? l = some .dir := by
  rw [isDir]
  split <;> simp_all

theorem isLink_eq_false_iff : fs.isLink l = false ↔ ∀ p, fs.get? l ≠ some (.link p) := by
  rw [isLink]
  split <;> simp_all

theorem bytes?_eq_some_iff {b : β} : fs.bytes? l = some b ↔ fs.get? l = some (.file b) := by
  rw [bytes?]
  split <;> simp_all

theorem bytes?_congr {fs' : FileSystem ν β} (h : fs'.get? l = fs.get? l) :
    fs'.bytes? l = fs.bytes? l := by
  rw [bytes?, h, bytes?]

@[simp]
theorem get?_root : fs.get? [] = some .dir := fs.root

@[simp]
theorem isDir_root : fs.isDir [] = true := isDir_iff.mpr fs.root

theorem isSome_of_isDir (h : fs.isDir l = true) : (fs.get? l).isSome := by
  rw [isDir_iff.mp h]
  rfl

theorem isDir_of_isSome (h : (fs.get? (n :: l)).isSome) : fs.isDir l = true :=
  isDir_iff.mpr (fs.parent n l h)

theorem isDir_tail (h : fs.isDir l = true) : fs.isDir l.tail = true := by
  cases l with
  | nil => exact isDir_root
  | cons n l => exact isDir_of_isSome (isSome_of_isDir h)

theorem isDir_base (h : fs.isDir l = true) (p : Path ν) : fs.isDir (p.base l) = true := by
  rw [Path.base]
  split_ifs
  · exact isDir_root
  · exact h

/-- There are no links at all. -/
def NoLinks (fs : FileSystem ν β) : Prop := ∀ m p, fs.get? m ≠ some (.link p)

theorem noLinks_empty : (empty : FileSystem ν β).NoLinks := by
  intro m p h
  rcases m with _ | ⟨n, m⟩
  · rw [get?_root] at h
    cases h
  · cases h

/-! ### Changing one location -/

/-- A node can be put in a directory, unless it would hide one. -/
def CanPut (fs : FileSystem ν β) (n : ν) (l : Loc ν) : Prop :=
  fs.isDir l = true ∧ fs.isDir (n :: l) = false

instance (n : ν) (l : Loc ν) : Decidable (fs.CanPut n l) := inferInstanceAs (Decidable (_ ∧ _))

/-- Put a node into a directory, in place of a file or a link that has its name. -/
def put (fs : FileSystem ν β) (n : ν) (l : Loc ν) (node : Node ν β) (h : fs.CanPut n l) :
    FileSystem ν β where
  nodes := fs.nodes.set (n :: l) node
  root := by
    rw [Dict.get?_set_of_ne (List.cons_ne_nil n l).symm]
    exact fs.root
  parent n' l' h' := by
    -- what is replaced was not a directory, so nothing is below it
    have hne : l' ≠ n :: l := by
      rintro rfl
      rw [Dict.get?_set_of_ne (by simp)] at h'
      have hdir := isDir_iff.mpr (fs.parent n' _ h')
      exact Bool.false_ne_true (h.2.symm.trans hdir)
    rw [Dict.get?_set_of_ne hne]
    rw [Dict.get?_set] at h'
    split_ifs at h' with heq
    · obtain ⟨-, rfl⟩ := List.cons.inj heq
      exact isDir_iff.mp h.1
    · exact fs.parent n' l' h'

/-- Remove a node and everything below it. -/
def removeTree (fs : FileSystem ν β) (n : ν) (l : Loc ν) : FileSystem ν β where
  nodes := fs.nodes.filter fun e => decide (¬ n :: l <:+ e.1)
  root := by
    rw [Dict.get?_filter, fs.root]
    simp [Option.filter]
  parent n' l' h := by
    obtain ⟨node, h⟩ := Option.isSome_iff_exists.mp h
    rw [Dict.get?_filter, Option.filter_eq_some_iff] at h
    -- what is below the removed node is below what is in it
    have hparent := fs.parent n' l' (Option.isSome_of_eq_some h.1)
    have hkept : ¬ n :: l <:+ l' := fun hsuffix => by
      simpa [hsuffix.trans (List.suffix_cons n' l')] using h.2
    rw [Dict.get?_filter, hparent, Option.filter_some, if_pos]
    simpa using hkept

/-- Remove a file or a link. -/
def remove (fs : FileSystem ν β) (l : Loc ν) (h : fs.isDir l = false) : FileSystem ν β where
  nodes := fs.nodes.del l
  root := by
    rw [Dict.get?_del, if_neg]
    · exact fs.root
    · rintro rfl
      exact Bool.false_ne_true (h.symm.trans isDir_root)
  parent n l' h' := by
    rw [Dict.get?_del] at h'
    split_ifs at h'
    · cases h'
    · have hparent := fs.parent n l' h'
      rw [Dict.get?_del, if_neg]
      · exact hparent
      · rintro rfl
        exact Bool.false_ne_true (h.symm.trans (isDir_iff.mpr hparent))

theorem get?_removeTree :
    (fs.removeTree n l).get? m = if n :: l <:+ m then none else fs.get? m := by
  rw [get?, removeTree, Dict.get?_filter]
  split_ifs with h
  · simp [h]
  · ext node
    simp [Option.filter_eq_some_iff, h, get?]

@[simp]
theorem get?_put {h : fs.CanPut n l} :
    (fs.put n l node h).get? m = if m = n :: l then some node else fs.get? m :=
  Dict.get?_set

theorem get?_put_of_ne {h : fs.CanPut n l} (hne : m ≠ n :: l) :
    (fs.put n l node h).get? m = fs.get? m := by
  rw [get?_put, if_neg hne]

theorem bytes?_put_of_ne {h : fs.CanPut n l} (hne : m ≠ n :: l) :
    (fs.put n l node h).bytes? m = fs.bytes? m :=
  bytes?_congr (get?_put_of_ne hne)

/-- Putting something else than a directory leaves the directories alone. -/
theorem isDir_put {h : fs.CanPut n l} (hnode : node ≠ .dir) :
    (fs.put n l node h).isDir m = fs.isDir m := by
  rw [Bool.eq_iff_iff, isDir_iff, isDir_iff, get?_put]
  split_ifs with hm
  · have hfalse := h.2
    rw [← hm, ← Bool.not_eq_true, isDir_iff] at hfalse
    simp [hnode, hfalse]
  · rfl

theorem get?_remove {h : fs.isDir l = false} :
    (fs.remove l h).get? m = if m = l then none else fs.get? m :=
  Dict.get?_del

/-- Removing a file or a link leaves the directories alone. -/
theorem isDir_remove {h : fs.isDir l = false} : (fs.remove l h).isDir m = fs.isDir m := by
  rw [Bool.eq_iff_iff, isDir_iff, isDir_iff, get?_remove]
  split_ifs with hm
  · rw [hm, ← isDir_iff, h]
    simp
  · rfl

/-- A name that was free, put and removed again. -/
theorem remove_put (hfree : fs.get? (n :: l) = none) {h : fs.CanPut n l}
    {h' : (fs.put n l node h).isDir (n :: l) = false} :
    (fs.put n l node h).remove (n :: l) h' = fs :=
  FileSystem.ext (Dict.del_set_self.trans (Dict.del_of_get?_eq_none hfree))

/-- The second of two nodes put at the same place is there. -/
theorem put_put {node' : Node ν β} {h : fs.CanPut n l} {h' : (fs.put n l node h).CanPut n l} :
    (fs.put n l node h).put n l node' h' = fs.put n l node' h :=
  FileSystem.ext Dict.set_set

/-- A node moved from a name that was free to another place. -/
theorem remove_put_put {n' : ν} {l' : Loc ν} {node' : Node ν β} (hfree : fs.get? (n :: l) = none)
    (hne : n :: l ≠ n' :: l') {h : fs.CanPut n l} {h' : (fs.put n l node h).CanPut n' l'}
    {hput : fs.CanPut n' l'}
    {h'' : ((fs.put n l node h).put n' l' node' h').isDir (n :: l) = false} :
    ((fs.put n l node h).put n' l' node' h').remove (n :: l) h'' = fs.put n' l' node' hput := by
  have hdel : (fs.put n l node h).nodes.del (n :: l) = fs.nodes := by
    rw [put, Dict.del_set_self, Dict.del_of_get?_eq_none hfree]
  refine FileSystem.ext ((Dict.del_set_of_ne hne).trans ?_)
  rw [hdel]
  rfl

/-- The file system of a list of nodes, directories before what they contain. -/
def ofNodes (nodes : List (Loc ν × Node ν β)) : FileSystem ν β :=
  nodes.foldl (fun fs e =>
    match e with
    | ([], _) => fs
    | (n :: l, node) => if h : fs.CanPut n l then fs.put n l node h else fs) empty

/-- A list of files and directories makes no links. -/
theorem noLinks_ofNodes {nodes : List (Loc ν × Node ν β)} (h : ∀ e ∈ nodes, ∀ p, e.2 ≠ .link p) :
    (ofNodes nodes).NoLinks := by
  suffices hfold : ∀ fs : FileSystem ν β, fs.NoLinks → (nodes.foldl (fun fs e =>
      match e with
      | ([], _) => fs
      | (n :: l, node) => if h : fs.CanPut n l then fs.put n l node h else fs) fs).NoLinks from
    hfold empty noLinks_empty
  induction nodes with
  | nil => exact fun fs hfs => hfs
  | cons e nodes ih =>
    rw [List.forall_mem_cons] at h
    intro fs hfs
    rw [List.foldl_cons]
    refine ih h.2 _ ?_
    obtain ⟨_ | ⟨n, l⟩, node⟩ := e
    · exact hfs
    · dsimp only
      split_ifs
      · intro m p
        rw [get?_put]
        split_ifs
        · exact fun hget => h.1 p (Option.some.inj hget)
        · exact hfs m p
      · exact hfs

/-! ### Additions -/

/-- Whatever is in `fs` is still there, unchanged, in `fs'`. -/
def Extends (fs fs' : FileSystem ν β) : Prop :=
  ∀ m, (fs.get? m).isSome → fs'.get? m = fs.get? m

theorem Extends.get?_of_some {fs' : FileSystem ν β} (h : fs.Extends fs')
    (hm : fs.get? m = some node) : fs'.get? m = some node := by
  have hsome : (fs.get? m).isSome := by
    rw [hm]
    rfl
  rw [h m hsome, hm]

theorem Extends.isDir {fs' : FileSystem ν β} (h : fs.Extends fs') (hm : fs.isDir m = true) :
    fs'.isDir m = true :=
  isDir_iff.mpr (h.get?_of_some (isDir_iff.mp hm))

theorem Extends.bytes? {fs' : FileSystem ν β} {b : β} (h : fs.Extends fs')
    (hm : fs.bytes? m = some b) : fs'.bytes? m = some b :=
  bytes?_eq_some_iff.mpr (h.get?_of_some (bytes?_eq_some_iff.mp hm))

theorem Extends.refl (fs : FileSystem ν β) : fs.Extends fs := fun _ _ => rfl

/-- Putting a node where nothing is. -/
theorem extends_put (hfree : fs.get? (n :: l) = none) {h : fs.CanPut n l} :
    fs.Extends (fs.put n l node h) := by
  intro m hm
  rw [get?_put, if_neg]
  rintro rfl
  rw [hfree] at hm
  cases hm

/-- A file system grows: what is there stays and files may change, but no link comes or goes. -/
structure Grows (fs fs' : FileSystem ν β) : Prop where
  nodes : ∀ m, (fs.get? m).isSome → (fs'.get? m).isSome
  dirs : ∀ m, fs.isDir m = true → fs'.isDir m = true
  links : ∀ m p, fs'.get? m = some (.link p) ↔ fs.get? m = some (.link p)

theorem Grows.refl (fs : FileSystem ν β) : fs.Grows fs where
  nodes _ h := h
  dirs _ h := h
  links _ _ := .rfl

theorem Grows.trans {fs' fs'' : FileSystem ν β} (h : fs.Grows fs') (h' : fs'.Grows fs'') :
    fs.Grows fs'' where
  nodes m hm := h'.nodes m (h.nodes m hm)
  dirs m hm := h'.dirs m (h.dirs m hm)
  links m p := (h'.links m p).trans (h.links m p)

/-- Putting something that is no link where no link is. -/
theorem grows_put (hlink : ∀ p, node ≠ .link p) (hget : ∀ p, fs.get? (n :: l) ≠ some (.link p))
    {h : fs.CanPut n l} : fs.Grows (fs.put n l node h) where
  nodes m hm := by
    rw [get?_put]
    split_ifs
    · rfl
    · exact hm
  dirs m hm := by
    have hne : m ≠ n :: l := by
      rintro rfl
      exact Bool.false_ne_true (h.2.symm.trans hm)
    rw [isDir_iff, get?_put_of_ne hne]
    exact isDir_iff.mp hm
  links m p := by
    rw [get?_put]
    split_ifs with hm
    · subst hm
      exact iff_of_false (fun h => hlink p (Option.some.inj h)) (hget p)
    · rfl

end FileSystem

end Lib
