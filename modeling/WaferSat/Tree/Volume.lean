import WaferSat.Foundation.CString
import Mathlib.Data.BitVec

/-!
A card as the calls of FatFs show it: a tree of directories whose entries come in a fixed order.
A directory is opened by the text of its path, and any call may fail.
-/
namespace WaferSat.Tree
open CString

abbrev Text := List (BitVec 8)

def slash : BitVec 8 := 0x2F

/-- FatFs takes both strokes as separators. -/
def isSeparator (c : BitVec 8) : Bool := c = slash || c = 0x5C

/-- `FRESULT`: `FR_OK`, or the code of a failure. -/
inductive FResult where
  | ok
  | failed (code : ℕ)
  deriving DecidableEq, Repr

/-- The fields of `FILINFO` that are read. -/
structure FileInfo where
  fname : Text
  fattrib : BitVec 8
  deriving DecidableEq, Repr

def amDir : BitVec 8 := 0x10
def amArc : BitVec 8 := 0x20

/-- What FatFs returns as the name of an entry. -/
structure IsName (name : Text) : Prop where
  length_pos : 1 ≤ name.length
  length_le : name.length ≤ 255
  no_zero : 0 ∉ name
  no_separator : ∀ c ∈ name, isSeparator c = false

instance (name : Text) : Decidable (IsName name) :=
  decidable_of_iff (1 ≤ name.length ∧ name.length ≤ 255 ∧ 0 ∉ name ∧
      ∀ c ∈ name, isSeparator c = false)
    ⟨fun ⟨h1, h2, h3, h4⟩ => ⟨h1, h2, h3, h4⟩, fun ⟨h1, h2, h3, h4⟩ => ⟨h1, h2, h3, h4⟩⟩

/-- The entries of a directory from one on: each is a file or a directory with its own entries. -/
inductive Dir where
  | empty
  | file (name : Text) (next : Dir)
  | sub (name : Text) (entries next : Dir)
  deriving DecidableEq, Repr

namespace Dir

def names : Dir → List Text
  | empty => []
  | file name next => name :: next.names
  | sub name _ next => name :: next.names

def Valid : Dir → Prop
  | empty => True
  | file name next => IsName name ∧ name ∉ next.names ∧ next.Valid
  | sub name entries next => IsName name ∧ name ∉ next.names ∧ entries.Valid ∧ next.Valid

instance decidableValid : (d : Dir) → Decidable d.Valid
  | empty => isTrue trivial
  | file _ next =>
    have := decidableValid next
    inferInstanceAs (Decidable (_ ∧ _ ∧ _))
  | sub _ entries next =>
    have := decidableValid entries
    have := decidableValid next
    inferInstanceAs (Decidable (_ ∧ _ ∧ _ ∧ _))

/-- What `f_readdir` returns one after the other. -/
def infos : Dir → List FileInfo
  | empty => []
  | file name next => ⟨name, amArc⟩ :: next.infos
  | sub name _ next => ⟨name, amDir⟩ :: next.infos

def find (name : Text) : Dir → Option Dir
  | empty => none
  | file _ next => next.find name
  | sub other entries next => if other = name then some entries else next.find name

def resolve (d : Dir) : List Text → Option Dir
  | [] => some d
  | name :: path => (d.find name).bind (resolve · path)

def depth : Dir → ℕ
  | empty => 0
  | file _ next => next.depth
  | sub _ entries next => max (entries.depth + 1) next.depth

/-- The path of an entry of the directory with path `path`. -/
def join (path name : Text) : Text := path ++ slash :: name

/-- The full paths of the directories below the one with path `path`. -/
def dirPaths (path : Text) : Dir → List Text
  | empty => []
  | file _ next => next.dirPaths path
  | sub name entries next =>
    join path name :: (entries.dirPaths (join path name) ++ next.dirPaths path)

/-- The full paths of the files, depth first and in directory order. -/
def filePaths (path : Text) : Dir → List Text
  | empty => []
  | file name next => join path name :: next.filePaths path
  | sub name entries next => entries.filePaths (join path name) ++ next.filePaths path

def listing (path : Text) (d : Dir) : List Text := (d.filePaths path).map (· ++ [13, 10])

/-- Directory `entries` is an entry of the given name. -/
def HasSub : Dir → Text → Dir → Prop
  | empty, _, _ => False
  | file _ next, name, entries => next.HasSub name entries
  | sub other others next, name, entries =>
    (other = name ∧ others = entries) ∨ next.HasSub name entries

variable {d entries : Dir} {name path : Text}

theorem HasSub.mem_names (h : d.HasSub name entries) : name ∈ d.names := by
  induction d with
  | empty => exact h.elim
  | file other next ih => exact List.mem_cons_of_mem _ (ih h)
  | sub other others next _ ih =>
    rcases h with ⟨rfl, -⟩ | h
    · exact List.mem_cons_self
    · exact List.mem_cons_of_mem _ (ih h)

theorem HasSub.isName (h : d.HasSub name entries) (hv : d.Valid) : IsName name := by
  induction d with
  | empty => exact h.elim
  | file other next ih => exact ih h hv.2.2
  | sub other others next _ ih =>
    rcases h with ⟨rfl, -⟩ | h
    · exact hv.1
    · exact ih h hv.2.2.2

theorem HasSub.find_eq (h : d.HasSub name entries) (hv : d.Valid) : d.find name = some entries := by
  induction d with
  | empty => exact h.elim
  | file other next ih => exact ih h hv.2.2
  | sub other others next _ ih =>
    rcases h with ⟨rfl, rfl⟩ | h
    · exact if_pos rfl
    · have hne : other ≠ name := by
        rintro rfl
        exact hv.2.1 h.mem_names
      rw [find, if_neg hne]
      exact ih h hv.2.2.2

theorem Valid.of_find (hv : d.Valid) (h : d.find name = some entries) : entries.Valid := by
  induction d with
  | empty => simp [find] at h
  | file other next ih => exact ih hv.2.2 h
  | sub other others next _ ih =>
    rw [find] at h
    split_ifs at h
    · exact Option.some.inj h ▸ hv.2.2.1
    · exact ih hv.2.2.2 h

theorem Valid.of_resolve {names : List Text} (hv : d.Valid) (h : d.resolve names = some entries) :
    entries.Valid := by
  induction names generalizing d with
  | nil => exact Option.some.inj h ▸ hv
  | cons name names ih =>
    obtain ⟨next, hfind, hnext⟩ := Option.bind_eq_some_iff.mp h
    exact ih (hv.of_find hfind) hnext

theorem resolve_concat (d : Dir) (names : List Text) (name : Text) :
    d.resolve (names ++ [name]) = (d.resolve names).bind (find name) := by
  induction names generalizing d with
  | nil => simp [resolve]
  | cons other names ih =>
    rw [List.cons_append, resolve, resolve, Option.bind_assoc]
    congr 1
    funext next
    exact ih next

end Dir

/-- The names in a path. -/
def components (path : Text) : List Text := (path.splitOnP isSeparator).filter (· ≠ [])

theorem components_join {name : Text} (h : IsName name) (path : Text) :
    components (Dir.join path name) = components path ++ [name] := by
  have hne : name ≠ [] := List.ne_nil_of_length_pos h.length_pos
  rw [components, Dir.join, List.splitOnP_append_cons _ _ (by decide),
    List.splitOnP_eq_singleton h.no_separator, List.filter_append]
  simp [components, hne]

/-- `follow_path`, up to the directory: a separator after the last name makes the path invalid. -/
def Dir.follow (root : Dir) (path : Text) : Except ℕ Dir :=
  if components path ≠ [] ∧ path.getLast?.any isSeparator then .error 6
  else
    match root.resolve (components path) with
    | some d => .ok d
    | none => .error 5

namespace Dir

variable {root d entries : Dir} {path name : Text}

theorem resolve_of_follow (h : root.follow path = .ok d) :
    root.resolve (components path) = some d := by
  unfold follow at h
  split_ifs at h
  split at h
  · next heq =>
    cases h
    exact heq
  · cases h

theorem follow_join (hname : IsName name) (h : root.follow path = .ok d)
    (hfind : d.find name = some entries) : root.follow (join path name) = .ok entries := by
  have hlast : ((join path name).getLast?.any isSeparator) = false := by
    have hne : name ≠ [] := List.ne_nil_of_length_pos hname.length_pos
    have hget : (join path name).getLast? = name.getLast? := by
      rw [join, List.getLast?_append_of_ne_nil _ (List.cons_ne_nil _ _), List.getLast?_cons,
        List.getLast?_eq_some_getLast hne]
      rfl
    rw [hget, List.getLast?_eq_some_getLast hne]
    exact hname.no_separator _ (List.getLast_mem hne)
  have hresolve : root.resolve (components (join path name)) = some entries := by
    rw [components_join hname, resolve_concat, resolve_of_follow h, Option.bind_some, hfind]
  simp [follow, hlast, hresolve]

end Dir

/-- A card and the results of the calls, by their number. -/
structure Volume where
  root : Dir
  valid : root.Valid
  result : ℕ → FResult

end WaferSat.Tree
