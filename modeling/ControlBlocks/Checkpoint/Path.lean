/-!
# Paths

Paths of files, seen from a directory.

* `parts` — a path cut at its slashes;
* `Location` — a place below the directory or outside it; `Location.enter` — one part further;
* `isName`, `isPath` — what a file or folder can be called, and which paths can be followed.
-/

set_option autoImplicit false

namespace ControlBlocks.Checkpoint

/-- A text cut at its slashes. -/
def partsOf : List Char → List (List Char)
  | [] => [[]]
  | c :: cs =>
    if c = '/' then [] :: partsOf cs
    else match partsOf cs with
      | [] => [[c]]
      | part :: rest => (c :: part) :: rest

/-- The parts of a path. -/
def parts (path : String) : List String := (partsOf path.toList).map String.ofList

theorem partsOf_of_not_mem {cs : List Char} (h : '/' ∉ cs) : partsOf cs = [cs] := by
  induction cs with
  | nil => rfl
  | cons c cs ih =>
    rw [List.mem_cons, not_or] at h
    simp [partsOf, Ne.symm h.1, ih h.2]

/-- A path without slashes is its only part. -/
theorem parts_of_not_mem {path : String} (h : '/' ∉ path.toList) : parts path = [path] := by
  simp [parts, partsOf_of_not_mem h]

/-- A path opens with a slash. -/
def isRooted (path : String) : Bool := path.toList.head? == some '/'

theorem isRooted_of_not_mem {path : String} (h : '/' ∉ path.toList) : isRooted path = false := by
  unfold isRooted
  cases hc : path.toList with
  | nil => rfl
  | cons c cs =>
    rw [hc, List.mem_cons, not_or] at h
    simpa using Ne.symm h.1

/-- What a file or folder can be called. -/
def isName (name : String) : Bool :=
  name != "" && name != "." && name != ".." && name.utf8ByteSize ≤ 255

theorem ne_of_isName {name : String} (h : isName name = true) :
    name ≠ "" ∧ name ≠ "." ∧ name ≠ ".." := by
  simp only [isName, Bool.and_eq_true, bne_iff_ne] at h
  exact ⟨h.1.1.1, h.1.1.2, h.1.2⟩

/-- A path, spelled in full, that can be followed: it is not too long and has no null character. -/
def isPath (path : String) : Bool :=
  path.utf8ByteSize < 4096 && path.toList.all (· != '\x00')

/-- A place: its name and those of the folders around it, the inmost first.  The directory itself
has no name; the folder above a place outside is `..`, and the outmost one is `/`. -/
abbrev Location := List String

namespace Location

/-- Where a path starts: at the directory, or outside of everything if it opens with a slash. -/
def start (path : String) : Location := if isRooted path then ["/"] else []

/-- The directory and the folders around it. -/
def isAround (l : Location) : Bool := l == ["/"] || l.all (· == "..")

/-- The folder around a place. -/
def up : Location → Location
  | [] => [".."]
  | name :: around =>
    if !isAround (name :: around) then around
    else if name = "/" then ["/"]
    else ".." :: name :: around

/-- Where one more part of a path leads. -/
def enter (l : Location) (part : String) : Location :=
  if part = "" ∨ part = "." then l else if part = ".." then l.up else part :: l

theorem enter_of_isName (l : Location) {name : String} (h : isName name = true) :
    l.enter name = name :: l := by
  obtain ⟨nonempty, noDot, noDots⟩ := ne_of_isName h
  simp [enter, nonempty, noDot, noDots]

theorem isAround_of_isName {name : String} (h : isName name = true) (flat : '/' ∉ name.toList) :
    isAround [name] = false := by
  have noSlash : name ≠ "/" := by
    rintro rfl
    exact flat (by decide)
  simp [isAround, noSlash, (ne_of_isName h).2.2]

end Location

end ControlBlocks.Checkpoint
