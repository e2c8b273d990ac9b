import ModelSurvey.Path
import ModelSurvey.Syntax.Tree

/-! A project's files. Everything below the top directory is listed by its location, the names that
lead to it. A path is followed piece by piece as an operating system does: symbolic links are opened
on the way, at most forty of them, and only a directory can be entered. -/
namespace ModelSurvey
set_option autoImplicit false

/-- A file: its bytes, and the concrete tree of its text if that was parsed. -/
structure File where
  source : Syntax.Source
  tree : Option Syntax.Tree

namespace Disk

inductive Item where
  | file (f : File)
  | directory
  | link (target : List String)

/-- Why a path cannot be read. -/
inductive Fault where
  | absent
  | notDirectory
  | isDirectory
  | tooManyLinks
  | notText
deriving DecidableEq, Repr

namespace Fault

def message : Fault → String
  | absent => "No such file or directory (os error 2)"
  | notDirectory => "Not a directory (os error 20)"
  | isDirectory => "Is a directory (os error 21)"
  | tooManyLinks => "Too many levels of symbolic links (os error 40)"
  | notText => "stream did not contain valid UTF-8"

end Fault

/-- The pieces of a path between slashes, empty ones kept. -/
def pathPieces (text : String) : List String :=
  (Text.pieces (· == '/') text.toList).map String.ofList

end Disk

/-- The files below the directory whose path is `top`. -/
structure Disk where
  top : Path
  items : List (List String × Disk.Item)

namespace Disk

def blank (top : Path) : Disk := ⟨top, []⟩

def item? (d : Disk) (location : List String) : Option Item :=
  match location with
  | [] => some .directory
  | _ => d.items.lookup location

/-! ## Following paths -/

def linkLimit : Nat := 40

/-- Follows `pieces` from `location`, opening links on the way. -/
def follow (d : Disk) (hops : Nat) (location : List String) (pieces : List String) :
    Except Fault (List String) :=
  match pieces with
  | [] => .ok location
  | p :: rest =>
    match d.item? location with
    | some .directory =>
      if p = "" ∨ p = "." then follow d hops location rest
      else if p = ".." then
        if location = [] then .error .absent else follow d hops location.dropLast rest
      else
        match d.item? (location ++ [p]), hops with
        | none, _ => .error .absent
        | some (.link _), 0 => .error .tooManyLinks
        | some (.link target), h + 1 => follow d h [] (target ++ rest)
        | some _, hops => follow d hops (location ++ [p]) rest
    | some (.file _) => .error .notDirectory
    | _ => .error .absent
termination_by (hops, pieces.length)

/-- The pieces of a path below the top directory. -/
def piecesBelow? (d : Disk) (p : Path) : Option (List String) :=
  let top := d.top.text.toList
  if top.isPrefixOf p.text.toList then
    match p.text.toList.drop top.length with
    | [] => some []
    | '/' :: r => some (pathPieces (String.ofList r))
    | _ => none
  else none

def locate (d : Disk) (p : Path) : Except Fault (List String) :=
  match d.piecesBelow? p with
  | none => .error .absent
  | some pieces => d.follow linkLimit [] pieces

def open? (d : Disk) (p : Path) : Except Fault Item :=
  (d.locate p).bind fun location =>
    match d.item? location with
    | some item => .ok item
    | none => .error .absent

def isDirectory (d : Disk) (p : Path) : Bool :=
  match d.open? p with
  | .ok .directory => true
  | _ => false

def pathExists (d : Disk) (p : Path) : Bool := (d.open? p).toOption.isSome

/-! ## Reading -/

/-- What a directory counts as its size. -/
def directorySize : Nat := 4096

def Item.size : Item → Nat
  | .file f => f.source.bytes.length
  | _ => directorySize

def Item.text : Item → Except Fault String
  | .file f =>
    match Syntax.Source.decode? f.source.bytes with
    | some text => .ok text
    | none => .error .notText
  | _ => .error .isDirectory

def readText (d : Disk) (p : Path) : Except Fault String := (d.open? p).bind Item.text

/-! ## Listing and changing -/

def names (d : Disk) (location : List String) : List String :=
  d.items.filterMap fun e =>
    if e.1.dropLast = location then e.1.getLast? else none

def set (d : Disk) (location : List String) (item : Item) : Disk :=
  { d with items := d.items.filter (fun e => e.1 != location) ++ [(location, item)] }

/-- Where the last piece of a path goes: in the directory that the pieces before it lead to. -/
def placeFor (d : Disk) (pieces : List String) : List String :=
  match d.follow linkLimit [] pieces.dropLast with
  | .ok directory => directory ++ pieces.getLast?.toList
  | .error _ => pieces

/-- Makes a directory at the end of some pieces if nothing is there. -/
def makeDirectory (d : Disk) (pieces : List String) : Disk :=
  match d.follow linkLimit [] pieces with
  | .ok _ => d
  | .error _ => d.set (d.placeFor pieces) .directory

/-- Makes the directories on the way to the last of some pieces, outermost first. -/
def makeParents (d : Disk) (pieces : List String) : Disk :=
  (List.range pieces.length).foldl (fun e n => e.makeDirectory (pieces.take n)) d

/-- Where a file written to some pieces ends up: links at the end are gone through. -/
def writePlace (d : Disk) (hops : Nat) (pieces : List String) : List String :=
  match hops, d.item? (d.placeFor pieces) with
  | h + 1, some (.link target) => d.writePlace h target
  | _, _ => d.placeFor pieces

/-- Writes an item at a path below the top, making parents. A directory that is there stays. -/
def put (d : Disk) (path : String) (item : Item) : Disk :=
  let pieces := (pathPieces path).filter fun p => p ≠ "" ∧ p ≠ "."
  let made := d.makeParents pieces
  match item with
  | .file _ => made.set (made.writePlace linkLimit pieces) item
  | .directory => made.makeDirectory pieces
  | .link _ => made.set (made.placeFor pieces) item

/-- Removes what lies at a path below the top, with all below it. -/
def remove (d : Disk) (path : String) : Disk :=
  let pieces := (pathPieces path).filter fun p => p ≠ "" ∧ p ≠ "."
  let place := d.placeFor pieces
  { d with items := d.items.filter fun e => !place.isPrefixOf e.1 }

end Disk

end ModelSurvey
