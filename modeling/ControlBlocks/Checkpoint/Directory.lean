import ControlBlocks.Checkpoint.Path
import ControlBlocks.Network.Model

/-!
# The checkpoint directory

A directory of files, some of which are checkpoints, numbered by their names.

* `Directory` — files and folders by place; it may not exist;
* `fileName`, `fileIndex?` — the name of a checkpoint and the number in it;
* `Directory.checkpoints` — the checkpoints, oldest first; `Directory.nextIndex`;
* `Directory.find?` — where a path leads;
* `Directory.read`, `write`, `makeFolder`, `prune` — what is done with files;
* `Directory.read_write` — what was written to a file is read from it.

Checkpoints are files in the directory itself; folders in it may hold anything.
-/

set_option autoImplicit false

namespace ControlBlocks.Checkpoint

/-- What is at a place. -/
inductive Entry where
  | file (text : String)
  | folder
  deriving DecidableEq, Repr

/-- A directory at a path; without contents it does not exist. -/
structure Directory where
  path : String
  contents : Option (List (Location × Entry))
  deriving DecidableEq, Repr

/-- The beginning of the name of a checkpoint. -/
def nameStart : String := "checkpoint_"

/-- The end of the name of a checkpoint. -/
def nameEnd : String := ".json"

/-- Decimal digits with zeros in front, six places at least. -/
def sixPlaces (n : Nat) : List Char :=
  let ds := Nat.toDigits 10 n
  List.replicate (6 - ds.length) '0' ++ ds

/-- The name of the checkpoint with a number. -/
def fileName (index : Nat) : String := nameStart ++ String.ofList (sixPlaces index) ++ nameEnd

/-- The rest of a list after a given beginning. -/
def afterStart? (start cs : List Char) : Option (List Char) :=
  if start.isPrefixOf cs then some (cs.drop start.length) else none

/-- The rest of a list before a given end. -/
def beforeEnd? (ending cs : List Char) : Option (List Char) :=
  (afterStart? ending.reverse cs.reverse).map List.reverse

/-- A text without the plus sign at its start, if there is one. -/
def withoutPlus : List Char → List Char
  | '+' :: rest => rest
  | cs => cs

/-- A number of 64 bits in decimal digits, with a plus sign or without. -/
def number? (cs : List Char) : Option Nat :=
  let ds := withoutPlus cs
  if ds.isEmpty || !ds.all Char.isDigit then none
  else
    let n := Nat.ofDigitChars 10 ds 0
    if n < 0x10000000000000000 then some n else none

/-- The number in the name of a checkpoint; `none` for any other name. -/
def fileIndex? (name : String) : Option Nat :=
  ((beforeEnd? nameEnd.toList name.toList).bind (afterStart? nameStart.toList)).bind number?

theorem ofDigitChars_sixPlaces (n : Nat) : Nat.ofDigitChars 10 (sixPlaces n) 0 = n := by
  have zeros (k : Nat) : Nat.ofDigitChars 10 (List.replicate k '0') 0 = 0 := by
    induction k with
    | zero => rfl
    | succ k ih => simp [List.replicate_succ, Nat.ofDigitChars_cons, ih]
  simp [sixPlaces, Nat.ofDigitChars_append, zeros, Nat.ofDigitChars_toDigits]

theorem isDigit_of_mem_sixPlaces {n : Nat} {c : Char} (h : c ∈ sixPlaces n) : c.isDigit = true := by
  simp only [sixPlaces, List.mem_append, List.mem_replicate] at h
  rcases h with ⟨-, rfl⟩ | h
  · decide
  · exact Nat.isDigit_of_mem_toDigits (by decide) (by decide) h

theorem afterStart?_append (start cs : List Char) : afterStart? start (start ++ cs) = some cs := by
  simp [afterStart?]

theorem beforeEnd?_append (ending cs : List Char) : beforeEnd? ending (cs ++ ending) = some cs := by
  simp [beforeEnd?, afterStart?_append]

theorem withoutPlus_of_isDigit {cs : List Char} (h : cs.all Char.isDigit = true) :
    withoutPlus cs = cs := by
  unfold withoutPlus
  split
  · simp at h
  · rfl

theorem number?_sixPlaces {n : Nat} (h : n < 0x10000000000000000) :
    number? (sixPlaces n) = some n := by
  have digits : (sixPlaces n).all Char.isDigit = true :=
    List.all_eq_true.2 fun _ hc => isDigit_of_mem_sixPlaces hc
  have nonempty : (sixPlaces n).isEmpty = false := by simp [sixPlaces, Nat.toDigits_ne_nil]
  simp only [number?, withoutPlus_of_isDigit digits, digits, nonempty, ofDigitChars_sixPlaces,
    Bool.not_true, Bool.or_self, Bool.false_eq_true, if_false, if_pos h]

/-- The name of a checkpoint gives back its number. -/
theorem fileIndex?_fileName {n : Nat} (h : n < 0x10000000000000000) :
    fileIndex? (fileName n) = some n := by
  simp only [fileIndex?, fileName, String.toList_append, String.toList_ofList, beforeEnd?_append,
    afterStart?_append, number?_sixPlaces h, Option.bind_some]

namespace Directory

/-- The directory, made if it does not exist. -/
def create (d : Directory) : Directory := { d with contents := some (d.contents.getD []) }

/-- The directory and all in it removed. -/
def remove (d : Directory) : Directory := { d with contents := none }

/-- The places and what is there. -/
def entries (d : Directory) : List (Location × Entry) := d.contents.getD []

/-- What is at a place; around the directory there are folders. -/
def at? (d : Directory) (l : Location) : Option Entry :=
  d.contents.bind fun entries => if l.isAround then some .folder else entries.lookup l

/-- A place is a folder. -/
def isFolder (d : Directory) (l : Location) : Bool := d.at? l == some .folder

/-- Where parts of a path lead from a place; all that is passed on the way has to be a folder. -/
def walk? (d : Directory) : Location → List String → Option Location
  | l, [] => some l
  | l, part :: rest => if d.isFolder l then d.walk? (l.enter part) rest else none

/-- A path seen from the directory, spelled in full. -/
def fullPath (d : Directory) (path : String) : String :=
  if isRooted path then path else d.path ++ "/" ++ path

/-- What a path leads to. -/
def find? (d : Directory) (path : String) : Option Entry :=
  if isPath (d.fullPath path) then (d.walk? (.start path) (parts path)).bind d.at? else none

/-- The name of a file or folder in the directory is a path to it. -/
theorem find?_of_isName (d : Directory) {name : String} (h : isName name = true)
    (flat : '/' ∉ name.toList) :
    d.find? name = if isPath (d.fullPath name) then d.at? [name] else none := by
  simp only [find?, parts_of_not_mem flat, Location.start, isRooted_of_not_mem flat, walk?,
    Location.enter_of_isName _ h]
  cases hc : d.contents with
  | none => simp [isFolder, at?, hc]
  | some entries => simp [isFolder, at?, hc, Location.isAround]

/-- A file in the directory itself is a checkpoint if it has the name of one. -/
def indexed? : Location × Entry → Option (Nat × String)
  | ([name], .file _) => (fileIndex? name).map fun i => (i, name)
  | _ => none

/-- The checkpoints with their numbers, in order. -/
def indexed (d : Directory) : List (Nat × String) :=
  (d.entries.filterMap indexed?).mergeSort fun a b => decide (a.1 ≤ b.1)

/-- The names of the checkpoints, oldest first. -/
def checkpoints (d : Directory) : List String := d.indexed.map (·.2)

/-- The name of the newest checkpoint. -/
def latest? (d : Directory) : Option String := d.checkpoints.getLast?

/-- The number of the next checkpoint: one after that of the newest, zero for the first. -/
def nextIndex (d : Directory) : Nat :=
  match d.indexed.getLast? with
  | some (i, _) => i + 1
  | none => 0

/-- The text of a file. -/
def read {α : Type} (d : Directory) (path : String) : Except (Failure α) String :=
  match d.find? path with
  | none => .error (.checkpointNotFound (d.fullPath path))
  | some .folder => .error .storage
  | some (.file text) => .ok text

/-- The entries with a new one; one at the same place is replaced. -/
def put (l : Location) (entry : Entry) : List (Location × Entry) → List (Location × Entry)
  | [] => [(l, entry)]
  | (k, e) :: rest => if k = l then (l, entry) :: rest else (k, e) :: put l entry rest

/-- A new entry changes what is at its own place, and nothing else. -/
theorem lookup_put (l k : Location) (e : Entry) (entries : List (Location × Entry)) :
    (put l e entries).lookup k = if k = l then some e else entries.lookup k := by
  induction entries with
  | nil => simp only [put, lookup_cons_eq_ite]
  | cons head rest ih =>
    obtain ⟨j, v⟩ := head
    simp only [put]
    split
    · next h =>
      subst h
      simp only [lookup_cons_eq_ite]
      split <;> rfl
    · next h =>
      simp only [lookup_cons_eq_ite, ih]
      split
      · next hk => simp [hk, h]
      · rfl

/-- The directory with something new at a place. -/
def set (d : Directory) (l : Location) (entry : Entry) : Directory :=
  { d with contents := d.contents.map (put l entry) }

/-- A text written to a file at a place whose folder exists; no folder is overwritten. -/
def writeAt {α : Type} (d : Directory) (l : Location) (text : String) :
    Except (Failure α) Directory :=
  if d.isFolder l.up && !d.isFolder l then .ok (d.set l (.file text)) else .error .storage

/-- A text written to the file at a path. -/
def write {α : Type} (d : Directory) (path text : String) : Except (Failure α) Directory :=
  match (parts path).reverse with
  | name :: folders =>
    match d.walk? (.start path) folders.reverse with
    | some l =>
      if isPath (d.fullPath path) && isName name then d.writeAt (name :: l) text
      else .error .storage
    | none => .error .storage
  | [] => .error .storage

/-- A path without slashes names a file in the directory itself. -/
theorem write_of_not_mem {α : Type} (d : Directory) {name : String} (flat : '/' ∉ name.toList)
    (text : String) :
    d.write (α := α) name text =
      if isPath (d.fullPath name) && isName name then d.writeAt [name] text
      else .error .storage := by
  simp [write, parts_of_not_mem flat, Location.start, isRooted_of_not_mem flat, walk?]

/-- What was written to a file in the directory is read from it. -/
theorem read_write {α : Type} {d d' : Directory} {name text : String} (flat : '/' ∉ name.toList)
    (w : d.write name text = (.ok d' : Except (Failure α) Directory)) :
    d'.read name = (.ok text : Except (Failure α) String) := by
  rw [write_of_not_mem d flat] at w
  split at w
  · next fits =>
    rw [Bool.and_eq_true] at fits
    unfold writeAt at w
    split at w
    · next room =>
      cases w
      have path : (d.set [name] (.file text)).fullPath name = d.fullPath name := rfl
      have there : (d.set [name] (.file text)).at? [name] = some (.file text) := by
        cases hc : d.contents with
        | none => simp [isFolder, at?, hc] at room
        | some entries =>
          simp [set, at?, hc, Location.isAround_of_isName fits.2 flat, lookup_put]
      simp [read, find?_of_isName _ fits.2 flat, path, fits.1, there]
    · cases w
  · cases w

/-- The folders along parts of a path, made where they are missing, up to the first that cannot
be made. -/
def withFolders : (d : Directory) → Location → List String → Directory
  | d, _, [] => d
  | d, l, part :: rest =>
    match d.at? (l.enter part) with
    | some .folder => withFolders d (l.enter part) rest
    | some (.file _) => d
    | none =>
      if isName part then withFolders (d.set (l.enter part) .folder) (l.enter part) rest else d

/-- The parts of a path that are made with it: all of them, or all but the last where the path goes
on to a dot, which stands only in a folder that is there. -/
def madeParts (path : String) : List String :=
  let named := (parts path).filter (· ≠ "")
  let steps := named.filter (· ≠ ".")
  if named.getLast? = some "." then steps.dropLast else steps

/-- The folder at a path and those around it, made where they are missing.  What was made stays
also where the rest could not be made. -/
def makeFolder {α : Type} (d : Directory) (path : String) :
    Except (Failure α) Unit × Directory :=
  let d := d.create
  let d := if isPath (d.fullPath path) then d.withFolders (.start path) (madeParts path) else d
  (if d.find? path = some .folder then .ok () else .error .storage, d)

/-- The directory without some of the files in it. -/
def without (d : Directory) (names : List String) : Directory :=
  { d with contents := d.contents.map fun entries =>
      entries.filter fun e => !names.any fun name => e.1 == [name] }

/-- All but the newest `keep` checkpoints removed, and how many that were. -/
def prune (d : Directory) (keep : Nat) : Nat × Directory :=
  let excess := d.checkpoints.length - keep
  (excess, d.without (d.checkpoints.take excess))

end Directory

end ControlBlocks.Checkpoint
