import GlobeBins.Geometry.Point

namespace GlobeBins

/-- A closed line through its points, or no line at all. -/
abbrev Ring (κ : Type) := List (Point κ)

structure Polygon (κ : Type) where
  outer : Ring κ
  holes : List (Ring κ)
  deriving DecidableEq

inductive Position where
  | inside
  | boundary
  | outside
  deriving DecidableEq,Repr

/-- A straight line between two points. -/
structure Segment (κ : Type) where
  start : Point κ
  finish : Point κ
  deriving DecidableEq

/-- A rectangle along the axes. -/
structure Box (κ : Type) where
  low : Point κ
  high : Point κ
  deriving DecidableEq

section

variable {κ : Type} [Coordinate κ]

def Point.equal (p q : Point κ) : Bool := Coordinate.equal p.x q.x && Coordinate.equal p.y q.y

/-- `v` lies between two bounds, whichever of them is the lower one. -/
def between (v a b : κ) : Bool := if a < b then a ≤ v && v ≤ b else b ≤ v && v ≤ a

/-- The rectangle with these opposite corners covers the point. -/
def Point.inCorners (p a b : Point κ) : Bool := between p.x a.x b.x && between p.y a.y b.y

namespace Box

/-- Grows a range to cover a value. A value that is no number leaves it as it is. -/
def cover (v : κ) (range : κ × κ) : κ × κ :=
  if range.2 < v then (range.1,v) else if v < range.1 then (v,range.2) else range

def around (b : Box κ) (p : Point κ) : Box κ :=
  let (west,east) := cover p.x (b.low.x,b.high.x)
  let (south,north) := cover p.y (b.low.y,b.high.y)
  ⟨⟨west,south⟩,⟨east,north⟩⟩

/-- The least box around some points; none without a point. -/
def ofPoints? : List (Point κ) → Option (Box κ)
  | [] => none
  | p::ps => some (ps.foldl around ⟨p,p⟩)

def ofSegment (s : Segment κ) : Box κ :=
  let (west,east) :=
    if s.start.x < s.finish.x then (s.start.x,s.finish.x) else (s.finish.x,s.start.x)
  let (south,north) :=
    if s.start.y < s.finish.y then (s.start.y,s.finish.y) else (s.finish.y,s.start.y)
  ⟨⟨west,south⟩,⟨east,north⟩⟩

def disjoint (a b : Box κ) : Bool :=
  a.high.x < b.low.x || a.high.y < b.low.y || b.high.x < a.low.x || b.high.y < a.low.y

/-- Nothing around no points is known to be apart. -/
def apart (a : Option (Box κ)) (b : Box κ) : Bool :=
  match a with
  | some a => a.disjoint b
  | none => false

end Box

namespace Segment

/-- The point lies on the segment, its ends included. -/
def covers (s : Segment κ) (p : Point κ) : Bool :=
  Coordinate.turn s.start s.finish p == .straight && p.inCorners s.start s.finish

/-- The segments share a point. A segment without length is a point; segments on one line meet if an
end of one lies in the other; any others if each separates the ends of the other. -/
def meets (s t : Segment κ) : Bool :=
  if s.start.equal s.finish then t.covers s.start
  else
    let a := Coordinate.turn s.start s.finish t.start
    let b := Coordinate.turn s.start s.finish t.finish
    if a ≠ b then
      Coordinate.turn t.start t.finish s.start ≠ Coordinate.turn t.start t.finish s.finish
    else if a = .straight then
      t.start.inCorners s.start s.finish || t.finish.inCorners s.start s.finish ||
        s.finish.inCorners t.start t.finish
    else false

end Segment

namespace Ring

def edges (r : Ring κ) : List (Segment κ) := r.zipWith Segment.mk r.tail

omit [Coordinate κ] in
theorem edges_cons (q q' : Point κ) (r : Ring κ) : edges (q::q'::r) = ⟨q,q'⟩::edges (q'::r) := rfl

omit [Coordinate κ] in
theorem mem_edges {r : Ring κ} {e : Segment κ} (he : e ∈ edges r) : e.start ∈ r ∧ e.finish ∈ r := by
  obtain ⟨a,b,hab,rfl⟩ : ∃ a b,(a,b) ∈ r.zip r.tail ∧ Segment.mk a b = e := by
    rw [edges,← List.map_uncurry_zip_eq_zipWith] at he
    obtain ⟨⟨a,b⟩,hab,rfl⟩ := List.mem_map.mp he
    exact ⟨a,b,hab,rfl⟩
  obtain ⟨ha,hb⟩ := List.of_mem_zip hab
  exact ⟨ha,List.mem_of_mem_tail hb⟩

/-- How an edge changes the winding number around a point; none if the point is on the edge. The
edge counts if it crosses the height of the point to the right of it: upward edges with their start
and without their end, downward ones the other way round. -/
def winding? (p : Point κ) (e : Segment κ) : Option Int :=
  let onEdge := between p.x e.start.x e.finish.x
  if e.start.y ≤ p.y then
    if p.y ≤ e.finish.y then
      let turn := Coordinate.turn e.start e.finish p
      if turn = .left ∧ ¬Coordinate.equal e.finish.y p.y then some 1
      else if turn = .straight ∧ onEdge then none
      else some 0
    else some 0
  else if e.finish.y ≤ p.y then
    let turn := Coordinate.turn e.start e.finish p
    if turn = .right then some (-1)
    else if turn = .straight ∧ onEdge then none
    else some 0
  else some 0

/-- Sum over the edges, unless the point is on one of them. -/
def windingNumber? (p : Point κ) : List (Segment κ) → Option Int
  | [] => some 0
  | e::es =>
    match winding? p e with
    | none => none
    | some n => (windingNumber? p es).map (n+·)

/-- A ring of one point is boundary there and nowhere else. -/
def position (r : Ring κ) (p : Point κ) : Position :=
  match r with
  | [] => .outside
  | [q] => if p.equal q then .boundary else .outside
  | r =>
    match windingNumber? p (edges r) with
    | none => .boundary
    | some n => if n = 0 then .outside else .inside

/-- Some edge shares a point with the segment. -/
def meets (r : Ring κ) (s : Segment κ) : Bool :=
  !Box.apart (Box.ofPoints? r) (Box.ofSegment s) && (edges r).any fun e => e.meets s

/-- Ends where it begins. -/
def close : Ring κ → Ring κ
  | [] => []
  | p::ps => if p.equal ((p::ps).getLast (by simp)) then p::ps else (p::ps)++[p]

end Ring

namespace Polygon

/-- The first hole that has the point inside or on its boundary decides. -/
def holePosition (p : Point κ) : List (Ring κ) → Position
  | [] => .inside
  | h::hs =>
    match Ring.position h p with
    | .outside => holePosition p hs
    | .boundary => .boundary
    | .inside => .outside

def position (g : Polygon κ) (p : Point κ) : Position :=
  match Ring.position g.outer p with
  | .inside => holePosition p g.holes
  | other => other

def meets (g : Polygon κ) (s : Segment κ) : Bool :=
  Ring.meets g.outer s || (g.holes.any fun h => Ring.meets h s) ||
    g.position s.start ≠ .outside || g.position s.finish ≠ .outside

/-- The least box around the outer rings. -/
def box? (gs : List (Polygon κ)) : Option (Box κ) := Box.ofPoints? (gs.flatMap Polygon.outer)

/-- The point lies inside one of the polygons. -/
def anyContains (gs : List (Polygon κ)) (p : Point κ) : Bool :=
  gs.any fun g => g.position p = .inside

def anyMeets (gs : List (Polygon κ)) (s : Segment κ) : Bool :=
  !Box.apart (box? gs) (Box.ofSegment s) && gs.any fun g => g.meets s

end Polygon

end

end GlobeBins
