import LexScript.Bindings
import LexScript.Program

/-!
# Frames

A frame binds names and may be enclosed by another frame. Frames are kept in the order of
their creation and named by their index; the first one holds the globals. A frame is
enclosed by an earlier one, so the frames around a frame form a chain that ends. Search by
name follows the chain to the nearest frame that binds the name; access by distance counts
links and looks into one frame only.

A failed access leaves the frames as they are: it yields an error in place of frames.

## Main definitions

* `Frames.find?`, `Frames.define` : one frame on its own.
* `Frames.owner?`, `Frames.get`, `Frames.assign` : the nearest binding on a chain.
* `Frames.ancestor?`, `Frames.getAt`, `Frames.assignAt` : the frame at a distance.
-/

namespace LexScript

/-- Bindings and the frame around them. -/
structure Frame (α : Type) where
  bindings : Bindings Name α
  enclosing : Option Nat

/-- Frames in the order of their creation. -/
structure Frames (α : Type) where
  frames : Array (Frame α)

/-- The error at a use of a name that is not bound. -/
def undefinedName (x : Name) (line : Nat) : RuntimeError :=
  ⟨.undefinedVariable x.text, ⟨x.text, line⟩⟩

namespace Frames

variable {α : Type}

/-- The index of the frame of the globals. -/
def globals : Nat := 0

/-- One empty frame that nothing encloses. -/
def initial : Frames α := ⟨#[⟨.empty, none⟩]⟩

/-- How many frames there are, which is the index of the next one. -/
def size (fs : Frames α) : Nat := fs.frames.size

/-- Adds an empty frame. -/
def push (fs : Frames α) (enclosing : Option Nat) : Frames α :=
  ⟨fs.frames.push ⟨.empty, enclosing⟩⟩

/-- The frame around a frame. -/
def enclosing? (fs : Frames α) (f : Nat) : Option Nat := fs.frames[f]?.bind Frame.enclosing

/-- What a frame itself binds a name to. -/
def find? (fs : Frames α) (f : Nat) (x : Name) : Option α :=
  fs.frames[f]?.bind (·.bindings.find? x)

/-- Whether a frame itself binds a name. -/
def binds (fs : Frames α) (f : Nat) (x : Name) : Bool := (fs.find? f x).isSome

/-- Binds a name in a frame, whether or not it was bound there. -/
def define (fs : Frames α) (f : Nat) (x : Name) (v : α) : Frames α :=
  ⟨fs.frames.modify f fun frame ↦ { frame with bindings := frame.bindings.put x v }⟩

/-! ## Search by name -/

/-- The nearest frame that binds a name among the first frames on the chain from a frame outward,
of which `count` are looked at. -/
def ownerAmong? (fs : Frames α) (x : Name) : Nat → Nat → Option Nat
  | 0, _ => none
  | count + 1, f =>
    if fs.binds f x then some f
    else
      match fs.enclosing? f with
      | some outer => ownerAmong? fs x count outer
      | none => none

/-- The nearest frame on the chain from a frame outward that binds a name. A chain that ends has no
more frames than there are. -/
def owner? (fs : Frames α) (f : Nat) (x : Name) : Option Nat := fs.ownerAmong? x fs.size f

/-- Reads a name at a use on `line`, from the nearest frame that binds it. -/
def get (fs : Frames α) (f : Nat) (x : Name) (line : Nat) : Except RuntimeError α :=
  match (fs.owner? f x).bind (fs.find? · x) with
  | some v => .ok v
  | none => .error (undefinedName x line)

/-- Assigns to a name at a use on `line`, in the nearest frame that binds it. -/
def assign (fs : Frames α) (f : Nat) (x : Name) (line : Nat) (v : α) :
    Except RuntimeError (Frames α) :=
  match fs.owner? f x with
  | some g => .ok (fs.define g x v)
  | none => .error (undefinedName x line)

/-! ## Access by distance -/

/-- The frame that many links outward, if the chain is that long. -/
def ancestor? (fs : Frames α) (f : Nat) : Nat → Option Nat
  | 0 => some f
  | distance + 1 =>
    match fs.enclosing? f with
    | some outer => ancestor? fs outer distance
    | none => none

/-- Reads a name at a use on `line`, from the frame at a distance alone. -/
def getAt (fs : Frames α) (f distance : Nat) (x : Name) (line : Nat) : Except RuntimeError α :=
  match (fs.ancestor? f distance).bind (fs.find? · x) with
  | some v => .ok v
  | none => .error (undefinedName x line)

/-- The frame at a distance, if it binds a name. -/
def ownerAt? (fs : Frames α) (f distance : Nat) (x : Name) : Option Nat :=
  match fs.ancestor? f distance with
  | some g => if fs.binds g x then some g else none
  | none => none

/-- Assigns to a name at a use on `line`, in the frame at a distance, which must bind it. -/
def assignAt (fs : Frames α) (f distance : Nat) (x : Name) (line : Nat) (v : α) :
    Except RuntimeError (Frames α) :=
  match fs.ownerAt? f distance x with
  | some g => .ok (fs.define g x v)
  | none => .error (undefinedName x line)

end Frames

end LexScript
