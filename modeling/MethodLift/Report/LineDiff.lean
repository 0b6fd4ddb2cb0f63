/-!
# Differences between two lists of lines

A difference is a list of runs: lines that both sides share, lines that only the old side has, and
lines that only the new side has.  It is found by divide and conquer: common lines at both ends are
set aside, and what remains is split where the furthest paths from its two corners of the edit graph
meet, so that the number of lines that are not shared is the least possible.

Among the differences of that size the result is made regular afterwards: insertions slide over
shared lines as far as they can, up and then down, and runs of one kind that meet become one.  A run
keeps the indices that it was found with when it trades places with a neighbour.
-/

namespace MethodLift.Report

/-- What a run of lines is. -/
inductive RunKind
  | equal
  | delete
  | insert
  /-- Old lines and the new lines in their place. -/
  | replace
deriving DecidableEq, Repr, Inhabited

/-- Lines of the old side from an index on, and lines of the new side from an index on. -/
structure Run where
  kind : RunKind
  old : Nat
  oldCount : Nat
  new : Nat
  newCount : Nat
deriving DecidableEq, Repr, Inhabited

namespace Run

def equal (old new count : Nat) : Run := ⟨.equal, old, count, new, count⟩

def delete (old count new : Nat) : Run := ⟨.delete, old, count, new, 0⟩

def insert (old new count : Nat) : Run := ⟨.insert, old, 0, new, count⟩

def isEqual (r : Run) : Bool := r.kind == .equal

/-- Whether the run holds no lines. -/
def isEmpty (r : Run) : Bool := r.oldCount == 0 && r.newCount == 0

/-- The run with more lines at its end. -/
def growEnd (r : Run) (n : Nat) : Run :=
  match r.kind with
  | .equal | .replace => { r with oldCount := r.oldCount + n, newCount := r.newCount + n }
  | .delete => { r with oldCount := r.oldCount + n }
  | .insert => { r with newCount := r.newCount + n }

/-- The run with fewer lines at its end. -/
def shrinkEnd (r : Run) (n : Nat) : Run :=
  match r.kind with
  | .equal | .replace => { r with oldCount := r.oldCount - n, newCount := r.newCount - n }
  | .delete => { r with oldCount := r.oldCount - n }
  | .insert => { r with newCount := r.newCount - n }

/-- The run moved towards the end of both sides. -/
def moveDown (r : Run) (n : Nat) : Run := { r with old := r.old + n, new := r.new + n }

/-- The run moved towards the start of both sides. -/
def moveUp (r : Run) (n : Nat) : Run := { r with old := r.old - n, new := r.new - n }

/-- The run with more lines at its start. -/
def growStart (r : Run) (n : Nat) : Run := (r.moveUp n).growEnd n

/-- The run with fewer lines at its start. -/
def shrinkStart (r : Run) (n : Nat) : Run := (r.moveDown n).shrinkEnd n

end Run

/-! ## Lines in common -/

/-- A stretch of indices. -/
structure Stretch where
  start : Nat
  stop : Nat
deriving DecidableEq, Repr, Inhabited

/-- How many indices there are. -/
def Stretch.count (s : Stretch) : Nat := s.stop - s.start

/-- How many of the first lines of two stretches agree, at most `n`. -/
def sharedFrom (old new : Array String) (i j : Nat) : Nat → Nat
  | 0 => 0
  | n + 1 => if old[i]? == new[j]? then sharedFrom old new (i + 1) (j + 1) n + 1 else 0

/-- How many of the first lines agree. -/
def sharedStart (old : Array String) (a : Stretch) (new : Array String) (b : Stretch) : Nat :=
  sharedFrom old new a.start b.start (min a.count b.count)

/-- How many of the last lines before two indices agree, at most `n`. -/
def sharedBefore (old new : Array String) (i j : Nat) : Nat → Nat
  | 0 => 0
  | n + 1 =>
    if old[i - 1]? == new[j - 1]? then sharedBefore old new (i - 1) (j - 1) n + 1 else 0

/-- How many of the last lines agree. -/
def sharedEnd (old : Array String) (a : Stretch) (new : Array String) (b : Stretch) : Nat :=
  sharedBefore old new a.stop b.stop (min a.count b.count)

/-! ## The middle of a shortest difference -/

/-- How far the paths have come on each diagonal, the diagonal `k` at index `offset + k`. -/
structure Frontier where
  offset : Nat
  reached : Array Nat
deriving Inhabited

namespace Frontier

/-- No path has moved. -/
def start (size : Nat) : Frontier := ⟨size, Array.replicate (2 * size + 2) 0⟩

def get (f : Frontier) (k : Int) : Nat := f.reached.getD (k + f.offset).toNat 0

def set (f : Frontier) (k : Int) (x : Nat) : Frontier :=
  { f with reached := f.reached.setIfInBounds (k + f.offset).toNat x }

/-- Where the best path with `d` steps enters the diagonal `k`. -/
def entry (f : Frontier) (d k : Int) : Nat :=
  if k == -d || (k != d && f.get (k - 1) < f.get (k + 1)) then f.get (k + 1) else f.get (k - 1) + 1

end Frontier

/-- The diagonals that paths with `d` steps can end on, the highest first. -/
def diagonals (d : Nat) : List Int :=
  (List.range (d + 1)).map fun (i : Nat) => (d : Int) - 2 * (i : Int)

/-- More rounds than the search for the middle needs. -/
def searchBound (n m : Nat) : Nat := (n + m + 1) / 2 + 1

/-- The two sides that are compared. -/
structure Sides where
  old : Array String
  oldPart : Stretch
  new : Array String
  newPart : Stretch

/-- Advances the paths from the start along some diagonals; ends early where one meets a path from
the end, at the point where its last common lines begin. -/
def advanceForward (s : Sides) (d : Nat) (backward : Frontier) :
    List Int → Frontier → Frontier × Option (Nat × Nat)
  | [], forward => (forward, none)
  | k :: ks, forward =>
    let n := s.oldPart.count
    let delta : Int := n - s.newPart.count
    let x := forward.entry d k
    let y := ((x : Int) - k).toNat
    let shared :=
      if x < n && y < s.newPart.count then
        sharedStart s.old ⟨s.oldPart.start + x, s.oldPart.stop⟩
          s.new ⟨s.newPart.start + y, s.newPart.stop⟩
      else 0
    let forward := forward.set k (x + shared)
    if delta % 2 != 0 && (k - delta).natAbs + 1 ≤ d
        && n ≤ forward.get k + backward.get (delta - k) then
      (forward, some (x + s.oldPart.start, y + s.newPart.start))
    else advanceForward s d backward ks forward

/-- Advances the paths from the end along some diagonals; ends early where one meets a path from the
start, at the point where its last common lines begin. -/
def advanceBackward (s : Sides) (d : Nat) (forward : Frontier) :
    List Int → Frontier → Frontier × Option (Nat × Nat)
  | [], backward => (backward, none)
  | k :: ks, backward =>
    let n := s.oldPart.count
    let m := s.newPart.count
    let delta : Int := n - m
    let x := backward.entry d k
    let y := ((x : Int) - k).toNat
    let shared :=
      if x < n && y < m then
        sharedEnd s.old ⟨s.oldPart.start, s.oldPart.start + n - x⟩
          s.new ⟨s.newPart.start, s.newPart.start + m - y⟩
      else 0
    let backward := backward.set k (x + shared)
    if delta % 2 == 0 && (k - delta).natAbs ≤ d
        && n ≤ backward.get k + forward.get (delta - k) then
      (backward, some (n - (x + shared) + s.oldPart.start, m - (y + shared) + s.newPart.start))
    else advanceBackward s d forward ks backward

/-- Looks for the middle with more and more steps. -/
def searchMiddle (s : Sides) : Nat → Nat → Frontier → Frontier → Option (Nat × Nat)
  | 0, _, _, _ => none
  | rounds + 1, d, forward, backward =>
    match advanceForward s d backward (diagonals d) forward with
    | (_, some point) => some point
    | (forward, none) =>
      match advanceBackward s d forward (diagonals d) backward with
      | (_, some point) => some point
      | (backward, none) => searchMiddle s rounds (d + 1) forward backward

/-- A point in the middle of a shortest difference. -/
def middle (s : Sides) : Option (Nat × Nat) :=
  let bound := searchBound s.oldPart.count s.newPart.count
  searchMiddle s bound 0 (.start bound) (.start bound)

/-! ## Divide and conquer -/

/-- The difference of two parts, with at most `fuel` divisions inside one another. -/
def runsOf (old new : Array String) : Nat → Stretch → Stretch → List Run
  | 0, a, b => [.delete a.start a.count b.start, .insert a.start b.start b.count]
  | fuel + 1, a, b =>
    let front := sharedStart old a new b
    let a' : Stretch := ⟨a.start + front, a.stop⟩
    let b' : Stretch := ⟨b.start + front, b.stop⟩
    let back := sharedEnd old a' new b'
    let a'' : Stretch := ⟨a'.start, a.stop - back⟩
    let b'' : Stretch := ⟨b'.start, b.stop - back⟩
    let inner :=
      if a''.count == 0 && b''.count == 0 then []
      else if b''.count == 0 then [.delete a''.start a''.count b''.start]
      else if a''.count == 0 then [.insert a''.start b''.start b''.count]
      else
        match middle ⟨old, a'', new, b''⟩ with
        | some (x, y) =>
          runsOf old new fuel ⟨a''.start, x⟩ ⟨b''.start, y⟩
            ++ runsOf old new fuel ⟨x, a''.stop⟩ ⟨y, b''.stop⟩
        | none =>
          [.delete a''.start a''.count b''.start, .insert a''.start b''.start b''.count]
    (if front == 0 then [] else [.equal a.start b.start front]) ++ inner
      ++ (if back == 0 then [] else [.equal a''.stop b''.stop back])

/-! ## Making a difference regular -/

/-- A list of runs with one of them in view: those before it, the nearest first, and those after. -/
structure Focus where
  before : List Run
  this : Run
  after : List Run
deriving Inhabited

namespace Focus

/-- All the runs in order. -/
def toList (f : Focus) : List Run := f.before.reverse ++ f.this :: f.after

/-- How many shared lines above the run could as well stand below it.  The lines are compared with
the new lines of the run, so a deletion, which has none, never slides. -/
def slackAbove (old new : Array String) (above this : Run) : Nat :=
  sharedEnd old ⟨above.old, above.old + above.oldCount⟩ new ⟨this.new, this.new + this.newCount⟩

/-- How many shared lines below the run could as well stand above it; for a deletion none. -/
def slackBelow (old new : Array String) (below this : Run) : Nat :=
  sharedStart old ⟨below.old, below.old + below.oldCount⟩ new ⟨this.new, this.new + this.newCount⟩

/-- The runs after one that moved up over `n` shared lines. -/
def addBelow (above this : Run) (n : Nat) : List Run → List Run
  | next :: rest =>
    if next.isEqual then next.growStart n :: rest
    else .equal (above.old + above.oldCount - n) (this.new + this.newCount - n) n :: next :: rest
  | [] => [.equal (above.old + above.oldCount - n) (this.new + this.newCount - n) n]

/-- The runs before one that moved down over `n` shared lines. -/
def addAbove (below this : Run) (n : Nat) : List Run → List Run
  | previous :: rest =>
    if previous.isEqual then previous.growEnd n :: rest
    else .equal below.old this.new n :: previous :: rest
  | [] => [.equal below.old this.new n]

/-- Moves the run up as far as it goes, in at most `fuel` steps. -/
def slideUp (old new : Array String) : Nat → Focus → Focus
  | 0, f => f
  | fuel + 1, f =>
    match f.before with
    | [] => f
    | above :: rest =>
      if above.isEqual then
        let n := slackAbove old new above f.this
        if 0 < n then
          let shorter := above.shrinkEnd n
          slideUp old new fuel
            ⟨if shorter.isEmpty then rest else shorter :: rest, f.this.moveUp n,
              addBelow above f.this n f.after⟩
        else if above.isEmpty then slideUp old new fuel ⟨rest, f.this, f.after⟩
        else f
      else if above.kind == f.this.kind then
        slideUp old new fuel
          ⟨rest, above.growEnd (f.this.oldCount + f.this.newCount), f.after⟩
      else slideUp old new fuel ⟨rest, f.this, above :: f.after⟩

/-- Moves the run down as far as it goes, in at most `fuel` steps. -/
def slideDown (old new : Array String) : Nat → Focus → Focus
  | 0, f => f
  | fuel + 1, f =>
    match f.after with
    | [] => f
    | below :: rest =>
      if below.isEqual then
        let n := slackBelow old new below f.this
        if 0 < n then
          let shorter := below.shrinkStart n
          slideDown old new fuel
            ⟨addAbove below f.this n f.before, f.this.moveDown n,
              if shorter.isEmpty then rest else shorter :: rest⟩
        else if below.isEmpty then slideDown old new fuel ⟨f.before, f.this, rest⟩
        else f
      else if below.kind == f.this.kind then
        slideDown old new fuel
          ⟨f.before, f.this.growEnd (below.oldCount + below.newCount), rest⟩
      else slideDown old new fuel ⟨below :: f.before, f.this, rest⟩

/-- Slides every run of a kind, from the first run on. -/
def slideAll (old new : Array String) (kind : RunKind) (bound : Nat) :
    Nat → List Run → List Run → List Run
  | 0, before, after => before.reverse ++ after
  | _ + 1, before, [] => before.reverse
  | fuel + 1, before, this :: after =>
    if this.kind == kind then
      let moved := slideDown old new bound (slideUp old new bound ⟨before, this, after⟩)
      slideAll old new kind bound fuel (moved.this :: moved.before) moved.after
    else slideAll old new kind bound fuel (this :: before) after

end Focus

/-- The runs after sliding deletions and then insertions. -/
def regular (old new : Array String) (runs : List Run) : List Run :=
  let bound := old.size + new.size + 2 * runs.length + 2
  let slide (kind : RunKind) (runs : List Run) : List Run :=
    Focus.slideAll old new kind bound bound [] runs
  slide .insert (slide .delete runs)

/-- Joins neighbours: shared lines with shared lines, and deletions with insertions. -/
def join : List Run → List Run
  | [] => []
  | r :: rs =>
    match join rs with
    | [] => [r]
    | next :: others =>
      if r.isEqual && next.isEqual then r.growEnd next.oldCount :: others
      else if !r.isEqual && !next.isEqual then merged r next :: others
      else r :: next :: others
where
  /-- Two neighbours that are not shared as one run. -/
  merged (a b : Run) : Run :=
    if a.oldCount == 0 && b.oldCount == 0 then { a with newCount := a.newCount + b.newCount }
    else if a.newCount == 0 && b.newCount == 0 then
      { a with oldCount := a.oldCount + b.oldCount }
    else
      ⟨.replace, if a.oldCount == 0 then b.old else a.old, a.oldCount + b.oldCount,
        if a.newCount == 0 then b.new else a.new, a.newCount + b.newCount⟩

/-- The difference of two lists of lines. -/
def lineDiff (old new : Array String) : List Run :=
  let fuel := old.size + new.size + 1
  join (regular old new (runsOf old new fuel ⟨0, old.size⟩ ⟨0, new.size⟩))

end MethodLift.Report
