import Dee.Failure

/-!
# Frames

A frame binds names and hangs under a parent, so the frames form a forest. Frames are numbered in
the order in which they are made, and a parent is always older than its children. A name is looked
up along the parents, and the nearest frame that binds it counts.
-/

namespace Dee

/-- The bindings of a frame and its parent. -/
structure Frame (α : Type) where
  parent : Option Nat
  bindings : List (String × α)
deriving Repr, DecidableEq

namespace Frame

variable {α : Type}

def binds (f : Frame α) (name : String) : Bool :=
  f.bindings.any fun b => b.1 = name

/-- The value that the frame itself binds to a name. -/
def value? (f : Frame α) (name : String) : Option α :=
  (f.bindings.find? fun b => b.1 = name).map Prod.snd

def bind (f : Frame α) (name : String) (v : α) : Frame α :=
  { f with bindings := f.bindings ++ [(name, v)] }

def rebind (f : Frame α) (name : String) (v : α) : Frame α :=
  { f with bindings := f.bindings.map fun b => if b.1 = name then (name, v) else b }

end Frame

/-- A forest of frames, oldest first. -/
structure Frames (α : Type) where
  frames : Array (Frame α)
deriving Repr, DecidableEq

/-- Where a name was found. -/
inductive Search where
  | found (frame : Nat)
  | absent
  | tooFar
deriving Repr, DecidableEq

namespace Frames

variable {α : Type}

/-- One frame, without a parent. -/
def single : Frames α := ⟨#[⟨none, []⟩]⟩

/-- Adds an empty frame under a parent. Its number is the number of frames so far. -/
def push (fs : Frames α) (parent : Nat) : Frames α :=
  ⟨fs.frames.push ⟨some parent, []⟩⟩

/-- Looks for the nearest frame that binds a name, over at most `reach` frames. -/
def search (fs : Frames α) (name : String) : (reach : Nat) → (frame : Nat) → Search
  | 0, _ => .tooFar
  | reach + 1, frame =>
    match fs.frames[frame]? with
    | none => .absent
    | some f =>
      if f.binds name then .found frame
      else
        match f.parent with
        | none => .absent
        | some parent => search fs name reach parent

/-- Whether a name may be bound in a frame: the frame must not bind it yet. -/
def accepts (fs : Frames α) (frame : Nat) (name : String) : Except EvalError Unit :=
  match fs.frames[frame]? with
  | none => .error (.undefined name)
  | some f => if f.binds name then .error (.alreadyDeclared name) else .ok ()

def bindAt (fs : Frames α) (frame : Nat) (name : String) (v : α) : Frames α :=
  ⟨fs.frames.modify frame (·.bind name v)⟩

/-- Binds a name in a frame that does not bind it yet. -/
def define (fs : Frames α) (frame : Nat) (name : String) (v : α) :
    Except EvalError (Frames α) :=
  (fs.accepts frame name).map fun _ => fs.bindAt frame name v

/-- The nearest frame that binds a name to be assigned to. -/
def owner (fs : Frames α) (reach frame : Nat) (name : String) : Except Failure Nat :=
  match fs.search name reach frame with
  | .found owner => .ok owner
  | .absent => .error (.ofError (.undeclared name))
  | .tooFar => .error .tooDeep

def rebindAt (fs : Frames α) (frame : Nat) (name : String) (v : α) : Frames α :=
  ⟨fs.frames.modify frame (·.rebind name v)⟩

def set (fs : Frames α) (reach frame : Nat) (name : String) (v : α) :
    Except Failure (Frames α) :=
  (fs.owner reach frame name).map fun owner => fs.rebindAt owner name v

def get (fs : Frames α) (reach frame : Nat) (name : String) : Except Failure α :=
  match fs.search name reach frame with
  | .found owner =>
    match fs.frames[owner]?.bind (·.value? name) with
    | some v => .ok v
    | none => .error (.ofError (.undefined name))
  | .absent => .error (.ofError (.undefined name))
  | .tooFar => .error .tooDeep

/-- A reach that no chain of parents exceeds. -/
def fullReach (fs : Frames α) : Nat := fs.frames.size + 1

end Frames

end Dee
