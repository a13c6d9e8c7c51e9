import Mathlib.Tactic.SplitIfs
import GlobeBins.Geometry.Polygon

namespace GlobeBins

theorem any_congr_mem {α : Type} {as : List α} {p q : α → Bool} (h : ∀ a ∈ as,p a = q a) :
    as.any p = as.any q := by
  rw [Bool.eq_iff_iff,List.any_eq_true,List.any_eq_true]
  exact exists_congr fun a => and_congr_right fun ha => by rw [h a ha]

section

variable {κ κ' : Type}

def Point.map (f : κ → κ') (p : Point κ) : Point κ' := ⟨f p.x,f p.y⟩

def Segment.map (f : κ → κ') (s : Segment κ) : Segment κ' := ⟨s.start.map f,s.finish.map f⟩

def Box.map (f : κ → κ') (b : Box κ) : Box κ' := ⟨b.low.map f,b.high.map f⟩

def Polygon.map (f : κ → κ') (g : Polygon κ) : Polygon κ' :=
  ⟨g.outer.map (Point.map f),g.holes.map (List.map (Point.map f))⟩

variable [Coordinate κ] [Coordinate κ']

/-- Keeps the order of some numbers and the turns of some points that have them as coordinates. -/
structure Faithful (f : κ → κ') (V : κ → Prop) (P : Point κ → Prop) : Prop where
  x {p : Point κ} : P p → V p.x
  y {p : Point κ} : P p → V p.y
  lt {a b : κ} : V a → V b → (f a < f b ↔ a < b)
  le {a b : κ} : V a → V b → (f a ≤ f b ↔ a ≤ b)
  turn {a b c : Point κ} : P a → P b → P c →
    Coordinate.turn (a.map f) (b.map f) (c.map f) = Coordinate.turn a b c

namespace Faithful

variable {f : κ → κ'} {V : κ → Prop} {P : Point κ → Prop} (F : Faithful f V P)
include F

theorem equal {a b : κ} (ha : V a) (hb : V b) :
    Coordinate.equal (f a) (f b) = Coordinate.equal a b := by
  simp only [Coordinate.equal,F.le ha hb,F.le hb ha]

theorem between {v a b : κ} (hv : V v) (ha : V a) (hb : V b) :
    between (f v) (f a) (f b) = between v a b := by
  simp only [GlobeBins.between,F.lt ha hb,F.le ha hv,F.le hv hb,F.le hb hv,F.le hv ha]

section

variable {p q a b : Point κ} (hp : P p) (hq : P q) (ha : P a) (hb : P b)
include hp

theorem pointEqual (hq : P q) : (p.map f).equal (q.map f) = p.equal q := by
  simp only [Point.equal,Point.map,F.equal (F.x hp) (F.x hq),F.equal (F.y hp) (F.y hq)]

include ha hb

theorem inCorners : (p.map f).inCorners (a.map f) (b.map f) = p.inCorners a b := by
  simp only [Point.inCorners,Point.map,F.between (F.x hp) (F.x ha) (F.x hb),
    F.between (F.y hp) (F.y ha) (F.y hb)]

theorem covers : (Segment.map f ⟨a,b⟩).covers (p.map f) = (Segment.mk a b).covers p := by
  simp only [Segment.covers,Segment.map,F.turn ha hb hp,F.inCorners hp ha hb]

theorem winding? : Ring.winding? (p.map f) (Segment.map f ⟨a,b⟩) = Ring.winding? p ⟨a,b⟩ := by
  have turn := F.turn ha hb hp
  simp only [Point.map] at turn
  simp only [Ring.winding?,Segment.map,Point.map,turn,F.between (F.x hp) (F.x ha) (F.x hb),
    F.le (F.y ha) (F.y hp),F.le (F.y hp) (F.y hb),F.le (F.y hb) (F.y hp),
    F.equal (F.y hb) (F.y hp)]

include hq

theorem meets : (Segment.map f ⟨p,q⟩).meets (Segment.map f ⟨a,b⟩) =
    (Segment.mk p q).meets ⟨a,b⟩ := by
  have point : (Segment.map f ⟨a,b⟩).covers (p.map f) = (Segment.mk a b).covers p :=
    F.covers hp ha hb
  simp only [Segment.meets]
  rw [← point]
  simp only [Segment.map,F.pointEqual hp hq,F.turn hp hq ha,F.turn hp hq hb,F.turn ha hb hp,
    F.turn ha hb hq,F.inCorners ha hp hq,F.inCorners hb hp hq,F.inCorners hq ha hb]

end

section

variable {p : Point κ} {r : Ring κ} (hp : P p) (hr : ∀ q ∈ r,P q)

omit F [Coordinate κ] [Coordinate κ'] in
theorem edges : Ring.edges (r.map (Point.map f)) = (Ring.edges r).map (Segment.map f) := by
  rw [Ring.edges,Ring.edges,← List.map_tail,List.zipWith_map,List.map_zipWith]
  rfl

include hp

theorem windingNumber? {es : List (Segment κ)} (hes : ∀ e ∈ es,P e.start ∧ P e.finish) :
    Ring.windingNumber? (p.map f) (es.map (Segment.map f)) = Ring.windingNumber? p es := by
  induction es with
  | nil => rfl
  | cons e es ih =>
    obtain ⟨⟨start,finish⟩,rest⟩ := List.forall_mem_cons.mp hes
    rw [List.map_cons,Ring.windingNumber?,F.winding? hp start finish,ih rest]
    rfl

include hr

theorem ringPosition : Ring.position (r.map (Point.map f)) (p.map f) = Ring.position r p := by
  match r with
  | [] => rfl
  | [q] =>
    simp only [List.map_cons,List.map_nil,Ring.position,F.pointEqual hp (hr q (by simp))]
  | q::q'::r =>
    have number : Ring.windingNumber? (p.map f)
        (Ring.edges (Point.map f q::Point.map f q'::r.map (Point.map f))) =
        Ring.windingNumber? p (Ring.edges (q::q'::r)) := by
      rw [← List.map_cons,← List.map_cons,edges,F.windingNumber? hp]
      exact fun e he => (Ring.mem_edges he).imp (hr _) (hr _)
    simp only [List.map_cons,Ring.position,number]

end

theorem cover {v low high : κ} (hv : V v) (hlow : V low) (hhigh : V high) :
    Box.cover (f v) (f low,f high) = Prod.map f f (Box.cover v (low,high)) := by
  simp only [Box.cover,F.lt hhigh hv,F.lt hv hlow]
  split_ifs <;> rfl

omit F [Coordinate κ'] in
theorem cover_mem {v low high : κ} (hv : V v) (hlow : V low) (hhigh : V high) :
    V (Box.cover v (low,high)).1 ∧ V (Box.cover v (low,high)).2 := by
  unfold Box.cover
  split_ifs
  · exact ⟨hlow,hv⟩
  · exact ⟨hv,hhigh⟩
  · exact ⟨hlow,hhigh⟩

end Faithful

/-- All four sides are among some numbers. -/
structure Box.Among (V : κ → Prop) (b : Box κ) : Prop where
  west : V b.low.x
  east : V b.high.x
  south : V b.low.y
  north : V b.high.y

namespace Faithful

variable {f : κ → κ'} {V : κ → Prop} {P : Point κ → Prop} (F : Faithful f V P)
include F

theorem around {b : Box κ} {p : Point κ} (hb : b.Among V) (hp : P p) :
    (b.map f).around (p.map f) = (b.around p).map f ∧ (b.around p).Among V := by
  obtain ⟨west,east⟩ := cover_mem (F.x hp) hb.west hb.east
  obtain ⟨south,north⟩ := cover_mem (F.y hp) hb.south hb.north
  refine ⟨?_,⟨west,east,south,north⟩⟩
  simp only [Box.around,Box.map,Point.map,F.cover (F.x hp) hb.west hb.east,
    F.cover (F.y hp) hb.south hb.north]
  rfl

theorem foldl_around {b : Box κ} {ps : List (Point κ)} (hb : b.Among V) (hps : ∀ p ∈ ps,P p) :
    (ps.map (Point.map f)).foldl Box.around (b.map f) = (ps.foldl Box.around b).map f ∧
      (ps.foldl Box.around b).Among V := by
  induction ps generalizing b with
  | nil => exact ⟨rfl,hb⟩
  | cons p ps ih =>
    obtain ⟨first,rest⟩ := List.forall_mem_cons.mp hps
    obtain ⟨same,among⟩ := F.around hb first
    rw [List.map_cons,List.foldl_cons,same]
    exact ih among rest

theorem ofPoints? {ps : List (Point κ)} (hps : ∀ p ∈ ps,P p) :
    Box.ofPoints? (ps.map (Point.map f)) = (Box.ofPoints? ps).map (Box.map f) ∧
      ∀ b,Box.ofPoints? ps = some b → b.Among V := by
  match ps with
  | [] => exact ⟨rfl,nofun⟩
  | p::ps =>
    obtain ⟨first,rest⟩ := List.forall_mem_cons.mp hps
    obtain ⟨same,among⟩ := @foldl_around κ κ' _ _ f V P F ⟨p,p⟩ ps
      ⟨F.x first,F.x first,F.y first,F.y first⟩ rest
    refine ⟨congrArg some same,?_⟩
    rintro b ⟨⟩
    exact among

theorem ofSegment {p q : Point κ} (hp : P p) (hq : P q) :
    Box.ofSegment (Segment.map f ⟨p,q⟩) = (Box.ofSegment ⟨p,q⟩).map f ∧
      (Box.ofSegment ⟨p,q⟩).Among V := by
  have px := F.x hp
  have qx := F.x hq
  have py := F.y hp
  have qy := F.y hq
  simp only [Box.ofSegment,Segment.map,Point.map,F.lt px qx,F.lt py qy]
  split_ifs
  · exact ⟨rfl,⟨px,qx,py,qy⟩⟩
  · exact ⟨rfl,⟨px,qx,qy,py⟩⟩
  · exact ⟨rfl,⟨qx,px,py,qy⟩⟩
  · exact ⟨rfl,⟨qx,px,qy,py⟩⟩

theorem disjoint {a b : Box κ} (ha : a.Among V) (hb : b.Among V) :
    (a.map f).disjoint (b.map f) = a.disjoint b := by
  simp only [Box.disjoint,Box.map,Point.map,F.lt ha.east hb.west,F.lt ha.north hb.south,
    F.lt hb.east ha.west,F.lt hb.north ha.south]

theorem apart {ps : List (Point κ)} {p q : Point κ} (hps : ∀ p ∈ ps,P p) (hp : P p) (hq : P q) :
    Box.apart (Box.ofPoints? (ps.map (Point.map f))) (Box.ofSegment (Segment.map f ⟨p,q⟩)) =
      Box.apart (Box.ofPoints? ps) (Box.ofSegment ⟨p,q⟩) := by
  obtain ⟨points,among⟩ := F.ofPoints? hps
  obtain ⟨segment,within⟩ := F.ofSegment hp hq
  rw [points,segment]
  cases box : Box.ofPoints? ps with
  | none => rfl
  | some b => exact F.disjoint (among b box) within

section

variable {p q : Point κ} (hp : P p) (hq : P q)
include hp

theorem holePosition {hs : List (Ring κ)} (hhs : ∀ h ∈ hs,∀ q ∈ h,P q) :
    Polygon.holePosition (p.map f) (hs.map (List.map (Point.map f))) =
      Polygon.holePosition p hs := by
  induction hs with
  | nil => rfl
  | cons h hs ih =>
    obtain ⟨first,rest⟩ := List.forall_mem_cons.mp hhs
    simp only [List.map_cons,Polygon.holePosition,F.ringPosition hp first,ih rest]

theorem position {g : Polygon κ} (outer : ∀ q ∈ g.outer,P q) (holes : ∀ h ∈ g.holes,∀ q ∈ h,P q) :
    (g.map f).position (p.map f) = g.position p := by
  simp only [Polygon.position,Polygon.map,F.ringPosition hp outer,F.holePosition hp holes]

theorem anyContains {gs : List (Polygon κ)} (outers : ∀ g ∈ gs,∀ q ∈ g.outer,P q)
    (holes : ∀ g ∈ gs,∀ h ∈ g.holes,∀ q ∈ h,P q) :
    Polygon.anyContains (gs.map (Polygon.map f)) (p.map f) = Polygon.anyContains gs p := by
  rw [Polygon.anyContains,Polygon.anyContains,List.any_map]
  refine any_congr_mem fun g hg => ?_
  rw [Function.comp_apply,F.position hp (outers g hg) (holes g hg)]

include hq

theorem ringMeets {r : Ring κ} (hr : ∀ q ∈ r,P q) :
    Ring.meets (r.map (Point.map f)) (Segment.map f ⟨p,q⟩) = Ring.meets r ⟨p,q⟩ := by
  rw [Ring.meets,Ring.meets,F.apart hr hp hq,edges,List.any_map]
  refine congrArg _ (any_congr_mem fun e he => ?_)
  obtain ⟨start,finish⟩ := Ring.mem_edges he
  exact F.meets (hr _ start) (hr _ finish) hp hq

variable {gs : List (Polygon κ)} (outers : ∀ g ∈ gs,∀ q ∈ g.outer,P q)
  (holes : ∀ g ∈ gs,∀ h ∈ g.holes,∀ q ∈ h,P q)
include outers holes

theorem anyMeets : Polygon.anyMeets (gs.map (Polygon.map f)) (Segment.map f ⟨p,q⟩) =
    Polygon.anyMeets gs ⟨p,q⟩ := by
  have points : (gs.map (Polygon.map f)).flatMap Polygon.outer =
      (gs.flatMap Polygon.outer).map (Point.map f) := by
    rw [List.flatMap_map,List.map_flatMap]
    rfl
  have outer : ∀ q ∈ gs.flatMap Polygon.outer,P q := fun q hq => by
    obtain ⟨g,hg,hq⟩ := List.mem_flatMap.mp hq
    exact outers g hg q hq
  rw [Polygon.anyMeets,Polygon.anyMeets,Polygon.box?,Polygon.box?,points,F.apart outer hp hq,
    List.any_map]
  refine congrArg _ (any_congr_mem fun g hg => ?_)
  have rings : (g.map f).holes.any (fun h => Ring.meets h (Segment.map f ⟨p,q⟩)) =
      g.holes.any fun h => Ring.meets h ⟨p,q⟩ := by
    rw [Polygon.map,List.any_map]
    exact any_congr_mem fun h hh => F.ringMeets hp hq (holes g hg h hh)
  rw [Function.comp_apply,Polygon.meets,Polygon.meets,rings]
  rw [show (g.map f).outer = g.outer.map (Point.map f) from rfl,F.ringMeets hp hq (outers g hg),
    Segment.map,F.position hp (outers g hg) (holes g hg),F.position hq (outers g hg) (holes g hg)]

end

end Faithful

end

end GlobeBins
