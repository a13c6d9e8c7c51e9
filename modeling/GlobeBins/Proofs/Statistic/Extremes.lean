import GlobeBins.Proofs.Numeric.Singles
import GlobeBins.Proofs.Statistic.Lifetime

namespace GlobeBins

namespace Binary32

/-- Of two numbers one is taken that comes before the other, and nothing but the start comes after
it. -/
structure Selects (before : Binary32 → Binary32 → Prop) (best : Binary32 → Binary32 → Binary32)
    (start : Binary32) : Prop where
  start_number : start.isNaN = false
  start_last : ∀ x,before start x → x = start
  trans : ∀ x y z,before x y → before y z → before x z
  takes : ∀ x y,x.isNaN = false → y.isNaN = false →
    best x y = x ∧ before x y ∨ best x y = y ∧ before y x

/-- The first of some numbers, or the start if there are none. -/
inductive First (before : Binary32 → Binary32 → Prop) (start : Binary32) (xs : List Binary32) :
    Binary32 → Prop
  | none : xs = [] → First before start xs start
  | some {x : Binary32} : x ∈ xs → (∀ y ∈ xs,before x y) → First before start xs x

variable {before : Binary32 → Binary32 → Prop} {best : Binary32 → Binary32 → Binary32}
  {start x y : Binary32} {xs ys : List Binary32}

/-- A number is taken before the start. -/
theorem Selects.start_left (selects : Selects before best start) (hy : y.isNaN = false) :
    best start y = y := by
  rcases selects.takes start y selects.start_number hy with ⟨same,after⟩ | ⟨same,_⟩
  · rw [same,selects.start_last y after]
  · exact same

theorem Selects.start_right (selects : Selects before best start) (hx : x.isNaN = false) :
    best x start = x := by
  rcases selects.takes x start hx selects.start_number with ⟨same,_⟩ | ⟨same,after⟩
  · exact same
  · rw [same,selects.start_last x after]

theorem First.number (first : First before start xs x) (selects : Selects before best start)
    (numbers : ∀ z ∈ xs,z.isNaN = false) : x.isNaN = false := by
  cases first with
  | none => exact selects.start_number
  | some mem _ => exact numbers x mem

theorem First.single (selects : Selects before best start) (hx : x.isNaN = false) :
    First before start [x] x := by
  refine .some (List.mem_singleton_self x) (List.forall_mem_singleton.mpr ?_)
  rcases selects.takes x x hx hx with ⟨_,self⟩ | ⟨_,self⟩ <;> exact self

/-- The firsts of two lists give the first of both together. -/
theorem First.append (selects : Selects before best start) (hx : First before start xs x)
    (hy : First before start ys y) (numbers : ∀ z ∈ xs++ys,z.isNaN = false) :
    First before start (xs++ys) (best x y) := by
  obtain ⟨own,other⟩ := List.forall_mem_append.mp numbers
  have nx := hx.number selects own
  have ny := hy.number selects other
  cases hx with
  | none empty =>
    rw [selects.start_left ny,empty]
    exact hy
  | some mem first =>
    cases hy with
    | none empty =>
      rw [selects.start_right nx,empty,List.append_nil]
      exact .some mem first
    | some mem' first' =>
      rcases selects.takes x y nx ny with ⟨same,ahead⟩ | ⟨same,ahead⟩
      · rw [same]
        refine .some (List.mem_append_left _ mem) (List.forall_mem_append.mpr ⟨first,?_⟩)
        exact fun z hz => selects.trans _ _ _ ahead (first' z hz)
      · rw [same]
        refine .some (List.mem_append_right _ mem') (List.forall_mem_append.mpr ⟨?_,first'⟩)
        exact fun z hz => selects.trans _ _ _ ahead (first z hz)

theorem min_selects : Selects (· ≤ ·) min infinity where
  start_number := rfl
  start_last x h := by
    have number := (not_isNaN_of_le h).2
    have order := (le_iff_key rfl number).mp h
    exact (eq_of_key (Int.le_antisymm order (key_of_number number).2) (by decide)).symm
  trans _ _ _ := le_trans
  takes x y hx hy := by
    unfold min
    split_ifs with h
    · exact .inr ⟨rfl,by simpa [hx] using h⟩
    · exact .inl ⟨rfl,le_of_not_le hy hx (by simpa [hx] using h)⟩

theorem max_selects : Selects (fun x y => y ≤ x) max negInfinity where
  start_number := rfl
  start_last x h := by
    have number := (not_isNaN_of_le h).1
    have order := (le_iff_key number rfl).mp h
    exact (eq_of_key (Int.le_antisymm (key_of_number number).1 order) (by decide)).symm
  trans _ _ _ h k := le_trans k h
  takes x y hx hy := by
    unfold max
    split_ifs with h
    · exact .inr ⟨rfl,by simpa [hx] using h⟩
    · exact .inl ⟨rfl,le_of_not_le hx hy (by simpa [hx] using h)⟩

end Binary32

namespace Extremes

variable (e : Extremes)

/-- The samples of the statistic's variable. -/
def seen (samples : List (List Binary32)) : List Binary32 := samples.filterMap (·[e.source]?)

/-- What a cell gives for some samples in whatever order. -/
inductive Found (xs : List Binary32) : List Binary32 → Prop
  | nothing : xs = [] → Found xs [e.fill,e.fill]
  | range {least greatest : Binary32} : least ∈ xs → greatest ∈ xs →
    (∀ x ∈ xs,least ≤ x ∧ x ≤ greatest) → Found xs [least,greatest]

/-- A vector of the least and the greatest of some numbers. -/
def Spans (xs v : List Binary32) : Prop := ∃ least greatest,v = [least,greatest] ∧
  Binary32.First (· ≤ ·) Binary32.infinity xs least ∧
  Binary32.First (fun x y => y ≤ x) Binary32.negInfinity xs greatest

variable {e} {xs ys v w : List Binary32}

theorem Spans.neutral : Spans [] neutral := ⟨_,_,rfl,.none rfl,.none rfl⟩

theorem Spans.single {x : Binary32} (h : x.isNaN = false) : Spans [x] [x,x] :=
  ⟨x,x,rfl,.single Binary32.min_selects h,.single Binary32.max_selects h⟩

theorem Spans.addCell (hv : Spans xs v) (hw : Spans ys w)
    (numbers : ∀ x ∈ xs++ys,x.isNaN = false) : Spans (xs++ys) (addCell w v) := by
  obtain ⟨a,b,rfl,least,greatest⟩ := hv
  obtain ⟨c,d,rfl,least',greatest'⟩ := hw
  exact ⟨a.min c,b.max d,rfl,least.append Binary32.min_selects least' numbers,
    greatest.append Binary32.max_selects greatest' numbers⟩

theorem seen_append (samples others : List (List Binary32)) :
    e.seen (samples++others) = e.seen samples++e.seen others := List.filterMap_append

theorem folded_spans {samples : List (List Binary32)}
    (numbers : ∀ x ∈ e.seen samples,x.isNaN = false) :
    Spans (e.seen samples) ((Statistic.extremes e).folded samples) := by
  induction samples using List.reverseRecOn with
  | nil => exact .neutral
  | append_singleton samples xs ih =>
    rw [seen_append] at numbers ⊢
    have rest := ih (List.forall_mem_append.mp numbers).1
    rw [Statistic.folded_append]
    cases found : xs[e.source]? with
    | none =>
      have none : e.seen [xs] = [] := by simp [seen,found]
      rw [none,List.append_nil]
      simpa only [Statistic.addSamples,Statistic.foldSample,found] using rest
    | some x =>
      -- a sample is merged like a cell of its own
      have one : e.seen [xs] = [x] := by simp [seen,found]
      rw [one] at numbers ⊢
      simp only [Statistic.addSamples,Statistic.foldSample,found]
      exact rest.addCell (.single (numbers x (by simp))) numbers

theorem lived_spans {partitions : List (List (List Binary32))}
    (numbers : ∀ x ∈ e.seen partitions.flatten,x.isNaN = false) :
    Spans (e.seen partitions.flatten) ((Statistic.extremes e).lived partitions) := by
  induction partitions using List.reverseRecOn with
  | nil => exact .neutral
  | append_singleton partitions samples ih =>
    rw [List.flatten_append,List.flatten_singleton,seen_append] at numbers ⊢
    obtain ⟨before,own⟩ := List.forall_mem_append.mp numbers
    rw [Statistic.lived_append]
    exact (ih before).addCell (folded_spans own) numbers

/-- Only the starts have not met. -/
theorem Spans.found (h : Spans xs v) : e.Found xs ((Statistic.extremes e).output v) := by
  obtain ⟨a,b,rfl,least,greatest⟩ := h
  cases least with
  | none empty =>
    cases greatest with
    | none _ => exact .nothing empty
    | some mem _ =>
      rw [empty] at mem
      cases mem
  | some mem first =>
    cases greatest with
    | none empty =>
      rw [empty] at mem
      cases mem
    | some mem' last =>
      have met : a ≤ b := last a mem
      simp only [Statistic.output,output,if_pos met]
      exact .range mem mem' fun x hx => ⟨first x hx,last x hx⟩

theorem Found.perm (h : e.Found xs v) (perm : xs.Perm ys) : e.Found ys v := by
  cases h with
  | nothing empty =>
    rw [empty] at perm
    exact .nothing perm.nil_eq.symm
  | range mem mem' bounds =>
    exact .range (perm.mem_iff.mp mem) (perm.mem_iff.mp mem') fun x hx =>
      bounds x (perm.mem_iff.mpr hx)

/-- Some numbers, divided in any way among any number of partitions that come in any order, give the
least and the greatest of them, and without any both entries are the fill value. This is what the
statistic writes in any ensemble. -/
theorem lived_found (e : Extremes) {partitions : List (List (List Binary32))}
    (numbers : ∀ x ∈ xs,x.isNaN = false) (divided : (e.seen partitions.flatten).Perm xs) :
    e.Found xs ((Statistic.extremes e).output ((Statistic.extremes e).lived partitions)) ∧
    ∀ (c : Ensemble) k p index out,c.At k (.extremes e) p →
      (∀ samples ∈ partitions,samples.length < 2^31) → out.length = c.outputCount →
      p.output.of (c.writeOutput (c.lived index partitions) out) =
        (Statistic.extremes e).output ((Statistic.extremes e).lived partitions) := by
  have own : ∀ x ∈ e.seen partitions.flatten,x.isNaN = false := fun x hx =>
    numbers x (divided.mem_iff.mp hx)
  refine ⟨(lived_spans own).found.perm divided,?_⟩
  intro c k p index out here few room
  exact here.lived_output few room

/-- Two partitions with an empty one between them, and an infinity among the samples. -/
theorem lived_found_infinite : ∃ e : Extremes,
    (∀ x ∈ [Binary32.infinity,3,3,Binary32.ofInt (-2)],x.isNaN = false) ∧
    (e.seen [[[3],[Binary32.ofInt (-2)]],[],[[Binary32.infinity],[3]]].flatten).Perm
      [Binary32.infinity,3,3,Binary32.ofInt (-2)] ∧
    e.Found [Binary32.infinity,3,3,Binary32.ofInt (-2)]
      ((Statistic.extremes e).output ((Statistic.extremes e).lived
        [[[3],[Binary32.ofInt (-2)]],[],[[Binary32.infinity],[3]]])) ∧
    (Statistic.extremes e).output ((Statistic.extremes e).lived
      [[[3],[Binary32.ofInt (-2)]],[],[[Binary32.infinity],[3]]]) =
        [Binary32.ofInt (-2),Binary32.infinity] := by
  let e : Extremes := ⟨"x",0,Binary32.nan⟩
  have numbers : ∀ x ∈ [Binary32.infinity,3,3,Binary32.ofInt (-2)],x.isNaN = false := by
    decide +kernel
  have divided : (e.seen [[[3],[Binary32.ofInt (-2)]],[],[[Binary32.infinity],[3]]].flatten).Perm
      [Binary32.infinity,3,3,Binary32.ofInt (-2)] := by
    decide +kernel
  exact ⟨e,numbers,divided,(e.lived_found numbers divided).1,by decide +kernel⟩

end Extremes

end GlobeBins
