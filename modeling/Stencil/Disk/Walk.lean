import Stencil.Disk.Basic
import Stencil.Disk.Step

/-!
# Walking along paths

A path leads to a location step by step.  Each step needs a directory to start from, and a link is
replaced by the path it holds.  The number of links on the way is limited, and so is the length of
names.

A walk is made to look at an entry or to make a file.  A file has no slash after its name, so a walk
that makes one stops before a name with a slash behind it, without a look at the name.

A walk itself may lead further away from the root than any path reaches, by way of links.  What lies
there has no canonical path.
-/

namespace Stencil.Disk

/-- Where a walk ends. -/
inductive Landing where
  /-- At an entry that is no link. -/
  | entry (location : Location)
  /-- At a name that its directory does not have. -/
  | vacant (location : Location)
deriving DecidableEq

/-- What a walk is made for. -/
inductive Purpose where
  | look
  | makeFile
deriving DecidableEq

/-- The number of links that a walk may follow. -/
def linkLimit : Nat := 40

/-- The number of bytes that a name may have. -/
def nameLimit : Nat := 255

/-- Take steps from a location.  When they meet a link, `follow` takes the steps of its path and
the steps that are left. -/
def walkWith (disk : Disk) (purpose : Purpose)
    (follow : Location → List Step → Except Fault Landing) :
    Location → List Step → Except Fault Landing
  | location, [] => .ok (.entry location)
  | location, step :: rest =>
      match disk.get? location with
      | none => .error .notFound
      | some (.file _) | some (.link _) => .error .notADirectory
      | some .directory =>
          match step with
          | .slash | .along .current => walkWith disk purpose follow location rest
          | .along .root => walkWith disk purpose follow [] rest
          | .along .parent => walkWith disk purpose follow location.dropLast rest
          | .along (.name name) =>
              if purpose = .makeFile ∧ rest = [.slash] then .error .isADirectory
              else if nameLimit < name.text.utf8ByteSize then .error .nameTooLong
              else
                match disk.get? (location ++ [name]) with
                | none =>
                    if rest.isEmpty then .ok (.vacant (location ++ [name])) else .error .notFound
                | some (.link target) => follow location (target.steps ++ rest)
                | some _ => walkWith disk purpose follow (location ++ [name]) rest

/-- Take steps from a location along at most the given number of links. -/
def walk (disk : Disk) (purpose : Purpose) :
    (links : Nat) → Location → List Step → Except Fault Landing
  | 0 => walkWith disk purpose fun _ _ => .error .tooManyLinks
  | links + 1 => walkWith disk purpose (walk disk purpose links)

/-- Where the walk along given steps ends. -/
def landing (disk : Disk) (purpose : Purpose) (steps : List Step) : Except Fault Landing :=
  disk.walk purpose linkLimit (if steps.head? = some (.along .root) then [] else disk.here) steps

/-- The location of the entry that steps lead to. -/
def arrive (disk : Disk) (steps : List Step) : Except Fault Location :=
  match disk.landing .look steps with
  | .ok (.entry location) => .ok location
  | .ok (.vacant _) => .error .notFound
  | .error fault => .error fault

/-- The location of the entry that a path leads to. -/
def find (disk : Disk) (path : Path) : Except Fault Location :=
  match path.fault? with
  | some fault => .error fault
  | none => disk.arrive path.steps

/-- The entry that a path leads to.  It is a file or a directory. -/
def read (disk : Disk) (path : Path) : Except Fault Entry :=
  match disk.find path with
  | .error fault => .error fault
  | .ok location =>
      match disk.get? location with
      | none => .error .notFound
      | some entry => .ok entry

def isDirectory (disk : Disk) (path : Path) : Bool :=
  match disk.read path with
  | .ok .directory => true
  | _ => false

def isFile (disk : Disk) (path : Path) : Bool :=
  match disk.read path with
  | .ok (.file _) => true
  | _ => false

/-- The text of the file at a path. -/
def readText (disk : Disk) (path : Path) : Except Fault String :=
  match disk.read path with
  | .error fault => .error fault
  | .ok (.file content) =>
      match String.fromUTF8? content with
      | some text => .ok text
      | none => .error .notText
  | .ok _ => .error .isADirectory

/-- The path that leads straight to a location. -/
def Location.toPath (location : Location) : Path :=
  Path.ofComponents (.root :: location.map .name)

/-- The number of bytes of names on the way to a location, each with the slash before it. -/
def Location.size : Location → Nat
  | [] => 0
  | name :: rest => name.text.utf8ByteSize + 1 + size rest

@[simp]
theorem Location.size_append (location inside : Location) :
    size (location ++ inside) = size location + size inside := by
  induction location with
  | nil => exact (Nat.zero_add _).symm
  | cons name rest ih =>
      rw [List.cons_append, size, size, ih]
      omega

/-- What a disk holds where the paths that lead straight there are short enough to be paths. -/
def near (disk : Disk) : Disk where
  entries := disk.entries.filter fun location _ => location.size < Path.sizeLimit
  here := disk.here
  rooted := by
    have kept : Location.size [] < Path.sizeLimit := by decide
    simp [Std.ExtTreeMap.getElem?_filter, disk.rooted, kept]
  closed location found below := by
    rw [Std.ExtTreeMap.mem_filter] at found
    obtain ⟨found, short⟩ := found
    rw [Std.ExtTreeMap.getKey_eq, decide_eq_true_eq] at short
    rw [← List.dropLast_concat_getLast below, Location.size_append] at short
    have kept : Location.size location.dropLast < Path.sizeLimit := by omega
    simp [Std.ExtTreeMap.getElem?_filter, disk.closed location found below, kept]

theorem get?_near (disk : Disk) (location : Location) :
    disk.near.get? location =
      if location.size < Path.sizeLimit then disk.get? location else none := by
  unfold near get?
  cases found : disk.entries[location]? <;> simp [Std.ExtTreeMap.getElem?_filter, found, Option.filter]

/-- The path that leads straight to where a path leads.  Every directory on the way is looked at by
the path that leads straight to it, and when this goes wrong, a path stands for itself. -/
def canonical (disk : Disk) (path : Path) : Path :=
  match disk.near.find path with
  | .ok location => location.toPath
  | .error _ => path

end Stencil.Disk
