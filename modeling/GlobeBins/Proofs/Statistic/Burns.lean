import GlobeBins.Proofs.Numeric.Singles
import GlobeBins.Proofs.Statistic.Lifetime

namespace GlobeBins.BurnedDay

/-- Day and confidence that the samples of one observation give. -/
def sees (b : BurnedDay) (samples : List Binary32) : Option (Binary32 × Binary32) :=
  match b.confidence with
  | none => samples[b.source]?.map fun day => (day,1)
  | some i => samples[b.source]?.bind fun day => samples[i]?.map fun confidence => (day,confidence)

/-- All that a list of observations gives. -/
def seen (b : BurnedDay) (samples : List (List Binary32)) : List (Binary32 × Binary32) :=
  samples.filterMap b.sees

/-- The earliest burn with the confidence that was first seen for it, or else the least negative mark,
or else unburned land. -/
inductive Settled (b : BurnedDay) (seen : List (Binary32 × Binary32)) : List Binary32 → Prop
  | burned {before after : List (Binary32 × Binary32)} {day confidence : Binary32}
    (split : seen = before++(day,confidence)::after) (burned : b.isBurned day = true)
    (first : ∀ p ∈ before,b.isBurned p.1 = true → day < p.1)
    (least : ∀ p ∈ after,b.isBurned p.1 = true → day ≤ p.1) : Settled b seen [day,confidence]
  | marked {day : Binary32} (none : ∀ p ∈ seen,b.isBurned p.1 = false) (negative : day < 0)
    (mem : ∃ p ∈ seen,p.1 = day) (least : ∀ p ∈ seen,day ≤ p.1) : Settled b seen [day,0]
  | unburned (none : ∀ p ∈ seen,b.isBurned p.1 = false) (positive : ∀ p ∈ seen,0 ≤ p.1) :
    Settled b seen [0,0]

/-- Burns have lower ranks than marks, and marks than unburned land. -/
def rank (b : BurnedDay) (day : Binary32) : Int :=
  if b.isBurned day then day.key-2^32 else min day.key 0

/-- The confidence of a burn is kept. -/
def kept (b : BurnedDay) (day confidence : Binary32) : Binary32 :=
  if b.isBurned day then confidence else 0

/-- The first sample of the lowest rank. -/
inductive Leads (b : BurnedDay) (seen : List (Binary32 × Binary32)) : List Binary32 → Prop
  | none (level : ∀ p ∈ seen,b.rank p.1 = 0) : Leads b seen [0,0]
  | some {before after : List (Binary32 × Binary32)} {day confidence : Binary32}
    (split : seen = before++(day,confidence)::after) (low : b.rank day < 0)
    (first : ∀ p ∈ before,b.rank day < b.rank p.1) (least : ∀ p ∈ after,b.rank day ≤ b.rank p.1) :
    Leads b seen [day,b.kept day confidence]

/-- What is found in a list of samples. -/
def settle (b : BurnedDay) (seen : List (Binary32 × Binary32)) : List Binary32 :=
  seen.foldl (fun v p => b.fold p.1 p.2 v) [0,0]

/-- No sample is a NaN. -/
def Numbers (seen : List (Binary32 × Binary32)) : Prop := ∀ p ∈ seen,p.1.isNaN = false

variable {b : BurnedDay} {x y z c o q : Binary32} {seen : List (Binary32 × Binary32)}
  {v : List Binary32}

theorem seen_append (samples others : List (List Binary32)) :
    b.seen (samples++others) = b.seen samples++b.seen others := List.filterMap_append

theorem addSample_eq (samples v : List Binary32) :
    b.addSample samples v = ((b.sees samples).elim v fun p => b.fold p.1 p.2 v) := by
  unfold addSample sees
  cases samples[b.source]? <;> cases b.confidence <;> simp
  next i => cases samples[i]? <;> rfl

/-- The window begins after 0. -/
theorem key_pos (burned : b.isBurned x = true) : 0 < x.key := by
  have one : (Binary32.ofNat 1).key = 0x3f800000 := rfl
  have least := Binary32.key_ofNat_mono b.window.1
  have first : Binary32.ofNat b.first ≤ x := by
    simp only [isBurned,Bool.and_eq_true,decide_eq_true_eq] at burned
    exact burned.1
  obtain ⟨hf,hx⟩ := Binary32.not_isNaN_of_le first
  have key := (Binary32.le_iff_key hf hx).mp first
  omega

theorem zero_not_burned : b.isBurned 0 = false := by
  rw [Bool.eq_false_iff]
  intro burned
  exact absurd (key_pos burned) (by decide)

theorem rank_zero : b.rank 0 = 0 := by
  rw [rank,zero_not_burned]
  rfl

theorem rank_burned (burned : b.isBurned x = true) : b.rank x = x.key-2^32 := by
  rw [rank,if_pos burned]

theorem rank_unburned (unburned : b.isBurned x = false) : b.rank x = min x.key 0 := by
  rw [rank,unburned]
  rfl

/-- Burns have the ranks below those of all singles. -/
theorem isBurned_iff_rank : b.isBurned x = true ↔ b.rank x < -2^31 := by
  obtain ⟨low,high⟩ := x.key_bounds
  cases burned : b.isBurned x
  · rw [rank_unburned burned]
    simp only [Bool.false_eq_true,false_iff]
    omega
  · rw [rank_burned burned]
    simp only [true_iff]
    omega

/-- Below 0 the rank gives the day. -/
theorem eq_of_rank (same : b.rank x = b.rank y) (low : b.rank x < 0) : x = y := by
  have alike : b.isBurned x = true ↔ b.isBurned y = true := by
    rw [isBurned_iff_rank,isBurned_iff_rank,same]
  apply Binary32.eq_of_key
  all_goals
    cases burned : b.isBurned x
    · have other : b.isBurned y = false := by simpa [burned] using alike
      rw [rank_unburned burned,rank_unburned other] at same
      rw [rank_unburned burned] at low
      omega
    · have other : b.isBurned y = true := by simpa [burned] using alike
      rw [rank_burned burned,rank_burned other] at same
      have pos := key_pos burned
      omega

theorem rank_nonpos : b.rank x ≤ 0 := by
  obtain ⟨low,high⟩ := x.key_bounds
  unfold rank
  split_ifs <;> omega

/-- A sample replaces another just when its rank is lower. -/
theorem fold_eq (hx : x.isNaN = false) (hy : y.isNaN = false) :
    b.fold x c [y,o] = if b.rank x < b.rank y then [x,b.kept x c] else [y,o] := by
  have key_zero : (0 : Binary32).key = 0 := rfl
  have before : x < y ↔ x.key < y.key := Binary32.lt_iff_key hx hy
  have negative : x < 0 ↔ x.key < 0 := by rw [Binary32.lt_iff_key hx rfl,key_zero]
  obtain ⟨lowx,highx⟩ := x.key_bounds
  obtain ⟨lowy,highy⟩ := y.key_bounds
  cases burnedx : b.isBurned x <;> cases burnedy : b.isBurned y
  · have ahead : b.rank x < b.rank y ↔ x < 0 ∧ x < y := by
      rw [rank_unburned burnedx,rank_unburned burnedy,before,negative]
      omega
    simp [fold,kept,burnedx,burnedy,ahead]
  · have behind : ¬b.rank x < b.rank y := by
      rw [rank_unburned burnedx,rank_burned burnedy]
      omega
    simp [fold,burnedx,burnedy,behind]
  · have ahead : b.rank x < b.rank y := by
      rw [rank_burned burnedx,rank_unburned burnedy]
      omega
    simp [fold,kept,burnedx,burnedy,ahead]
  · have ahead : b.rank x < b.rank y ↔ x < y := by
      rw [rank_burned burnedx,rank_burned burnedy,before]
      omega
    simp [fold,kept,burnedx,burnedy,ahead]

theorem kept_kept : b.kept x (b.kept x c) = b.kept x c := by
  unfold kept
  split_ifs <;> rfl

/-- Nothing is replaced by what a pass starts with. -/
theorem addCell_zero (hy : y.isNaN = false) : b.addCell [0,0] [y,o] = [y,o] := by
  have low := @rank_nonpos b y
  rw [addCell,fold_eq rfl hy,rank_zero,if_neg (by omega)]

/-- A sample is folded before a merge or after it. -/
theorem addCell_fold (hx : x.isNaN = false) (hy : y.isNaN = false) (hz : z.isNaN = false) :
    b.addCell (b.fold x c [y,o]) [z,q] = b.fold x c (b.addCell [y,o] [z,q]) := by
  rw [fold_eq hx hy]
  simp only [addCell]
  rw [fold_eq hy hz]
  by_cases yz : b.rank y < b.rank z <;> by_cases xy : b.rank x < b.rank y
  · have xz : b.rank x < b.rank z := by omega
    simp [yz,xy,xz,fold_eq hx hy,fold_eq hx hz,kept_kept]
  · simp [yz,xy,fold_eq hx hy,fold_eq hy hz]
  · by_cases xz : b.rank x < b.rank z <;> simp [yz,xy,xz,fold_eq hx hz,kept_kept]
  · have xz : ¬b.rank x < b.rank z := by omega
    simp [yz,xy,xz,fold_eq hx hz,fold_eq hy hz]

theorem settle_append (seen : List (Binary32 × Binary32)) (p : Binary32 × Binary32) :
    b.settle (seen++[p]) = b.fold p.1 p.2 (b.settle seen) := by
  rw [settle,List.foldl_append,← settle,List.foldl_cons,List.foldl_nil]

theorem folded_eq (samples : List (List Binary32)) :
    (Statistic.burnedDay b).folded samples = b.settle (b.seen samples) := by
  induction samples using List.reverseRecOn with
  | nil => rfl
  | append_singleton samples xs ih =>
    rw [Statistic.folded_append,ih,Statistic.addSamples,addSample_eq,seen_append]
    cases h : b.sees xs with
    | none => simp [seen,h]
    | some p => simp [seen,h,settle_append]

/-- A list of samples is left at 0 or at one of its days. -/
theorem settle_pair (numbers : Numbers seen) :
    ∃ day confidence,b.settle seen = [day,confidence] ∧ day.isNaN = false := by
  induction seen using List.reverseRecOn with
  | nil => exact ⟨0,0,rfl,rfl⟩
  | append_singleton seen p ih =>
    obtain ⟨day,confidence,eq,number⟩ := ih fun q hq => numbers q (by simp [hq])
    have own : p.1.isNaN = false := numbers p (by simp)
    rw [settle_append,eq,fold_eq own number]
    split_ifs
    · exact ⟨_,_,rfl,own⟩
    · exact ⟨_,_,rfl,number⟩

/-- Merging what a partition is left at comes to folding its samples. -/
theorem addCell_settle {other : List (Binary32 × Binary32)} (before : Numbers other)
    (numbers : Numbers seen) :
    b.addCell (b.settle seen) (b.settle other) = b.settle (other++seen) := by
  induction seen using List.reverseRecOn with
  | nil =>
    obtain ⟨z,q,start,number⟩ := settle_pair (b := b) before
    rw [List.append_nil,start]
    exact addCell_zero number
  | append_singleton seen p ih =>
    have rest : Numbers seen := fun q hq => numbers q (by simp [hq])
    have own : p.1.isNaN = false := numbers p (by simp)
    obtain ⟨z,q,start,number⟩ := settle_pair (b := b) before
    obtain ⟨y,o,eq,found⟩ := settle_pair (b := b) rest
    rw [← List.append_assoc,settle_append,settle_append,← ih rest,start,eq]
    exact addCell_fold own found number

/-- Only the order of the samples counts, not how they are divided. -/
theorem lived_eq_settle {partitions : List (List (List Binary32))}
    (numbers : Numbers (b.seen partitions.flatten)) :
    (Statistic.burnedDay b).lived partitions = b.settle (b.seen partitions.flatten) := by
  induction partitions using List.reverseRecOn with
  | nil => rfl
  | append_singleton partitions samples ih =>
    rw [List.flatten_append,List.flatten_singleton,seen_append] at numbers ⊢
    have before : Numbers (b.seen partitions.flatten) := fun p hp => numbers p (by simp [hp])
    have own : Numbers (b.seen samples) := fun p hp => numbers p (by simp [hp])
    have cell : (Statistic.burnedDay b).summary samples = b.settle (b.seen samples) :=
      folded_eq samples
    rw [Statistic.lived_append,Statistic.addPartition,ih before,cell]
    exact addCell_settle before own

theorem Leads.append {p : Binary32 × Binary32} (h : b.Leads seen v) (numbers : Numbers (seen++[p])) :
    b.Leads (seen++[p]) (b.fold p.1 p.2 v) := by
  have own : p.1.isNaN = false := numbers p (by simp)
  cases h with
  | none level =>
    rw [fold_eq own rfl,rank_zero]
    split_ifs with low
    · exact .some rfl low (fun q hq => by rw [level q hq]; exact low) (by simp)
    · refine .none fun q hq => ?_
      have top := @rank_nonpos b p.1
      rcases List.mem_append.mp hq with hq | hq
      · exact level q hq
      · rw [List.mem_singleton.mp hq]
        omega
  | @some before after day confidence split low first least =>
    have number : day.isNaN = false := numbers (day,confidence) (by simp [split])
    rw [fold_eq own number]
    split_ifs with lower
    · refine .some rfl (by omega) (fun q hq => ?_) (by simp)
      rw [split] at hq
      rcases List.mem_append.mp hq with hq | hq
      · exact lower.trans (first q hq)
      · rcases List.mem_cons.mp hq with rfl | hq
        · exact lower
        · exact lower.trans_le (least q hq)
    · have longer : seen++[p] = before++(day,confidence)::(after++[p]) := by simp [split]
      refine .some longer low first fun q hq => ?_
      rcases List.mem_append.mp hq with hq | hq
      · exact least q hq
      · rw [List.mem_singleton.mp hq]
        omega

theorem leads_settle (numbers : Numbers seen) : b.Leads seen (b.settle seen) := by
  induction seen using List.reverseRecOn with
  | nil => exact .none (by simp)
  | append_singleton seen p ih =>
    rw [settle_append]
    exact (ih fun q hq => numbers q (by simp [hq])).append numbers

/-- No rank is lower than that of the day found, which is one of the days if it is not 0. -/
theorem Leads.lowest (h : b.Leads seen v) : ∃ day confidence,v = [day,confidence] ∧
    (∀ p ∈ seen,b.rank day ≤ b.rank p.1) ∧
    (day = 0 ∨ b.rank day < 0 ∧ day ∈ seen.map Prod.fst) := by
  cases h with
  | none level =>
    refine ⟨0,0,rfl,fun p hp => ?_,.inl rfl⟩
    rw [rank_zero,level p hp]
  | @some before after day confidence split low first least =>
    refine ⟨day,_,rfl,fun p hp => ?_,.inr ⟨low,by simp [split]⟩⟩
    rw [split] at hp
    rcases List.mem_append.mp hp with hp | hp
    · exact (first p hp).le
    · rcases List.mem_cons.mp hp with rfl | hp
      · exact le_rfl
      · exact least p hp

/-- Samples of the same days lead to one day, whatever their order and confidence. -/
theorem Leads.day_eq {other : List (Binary32 × Binary32)} {w : List Binary32} (h : b.Leads seen v)
    (k : b.Leads other w) (days : (seen.map Prod.fst).Perm (other.map Prod.fst)) :
    v.head? = w.head? := by
  obtain ⟨x,_,rfl,leastx,foundx⟩ := h.lowest
  obtain ⟨y,_,rfl,leasty,foundy⟩ := k.lowest
  have under {day : Binary32} {seen : List (Binary32 × Binary32)} {low : Int}
      (least : ∀ p ∈ seen,low ≤ b.rank p.1) (mem : day ∈ seen.map Prod.fst) : low ≤ b.rank day := by
    obtain ⟨p,hp,rfl⟩ := List.mem_map.mp mem
    exact least p hp
  have same : x = y := by
    rcases foundx with rfl | ⟨lowx,memx⟩ <;> rcases foundy with rfl | ⟨lowy,memy⟩
    · rfl
    · have bound := under leastx (days.mem_iff.mpr memy)
      rw [rank_zero] at bound
      omega
    · have bound := under leasty (days.mem_iff.mp memx)
      rw [rank_zero] at bound
      omega
    · have le := under leastx (days.mem_iff.mpr memy)
      have ge := under leasty (days.mem_iff.mp memx)
      exact eq_of_rank (Int.le_antisymm le ge) lowx
  rw [same,List.head?_cons,List.head?_cons]

/-- No sample has the rank of a burn if the lowest one is not a burn. -/
theorem unburned_of_lowest (unburned : b.isBurned x = false)
    (lowest : ∀ p ∈ seen,b.rank x ≤ b.rank p.1) : ∀ p ∈ seen,b.isBurned p.1 = false := by
  intro p hp
  have bound := isBurned_iff_rank.not.mp (Bool.eq_false_iff.mp unburned)
  have rank := lowest p hp
  rw [Bool.eq_false_iff,ne_eq,isBurned_iff_rank]
  omega

theorem settled_unburned (numbers : Numbers seen) (level : ∀ p ∈ seen,b.rank p.1 = 0) :
    b.Settled seen [0,0] := by
  have none : ∀ p ∈ seen,b.isBurned p.1 = false := by
    refine unburned_of_lowest zero_not_burned fun p hp => ?_
    rw [rank_zero,level p hp]
  refine .unburned none fun p hp => ?_
  have zero : (0 : Binary32).key = 0 := rfl
  have rank := level p hp
  rw [rank_unburned (none p hp)] at rank
  rw [Binary32.le_iff_key rfl (numbers p hp),zero]
  omega

theorem settled_marked (numbers : Numbers seen) (unburned : b.isBurned x = false)
    (low : b.rank x < 0) (mem : ∃ p ∈ seen,p.1 = x) (lowest : ∀ p ∈ seen,b.rank x ≤ b.rank p.1) :
    b.Settled seen [x,0] := by
  obtain ⟨q,hq,rfl⟩ := mem
  have none := unburned_of_lowest unburned lowest
  have zero : (0 : Binary32).key = 0 := rfl
  rw [rank_unburned unburned] at low
  refine .marked none ?_ ⟨q,hq,rfl⟩ fun p hp => ?_
  · rw [Binary32.lt_iff_key (numbers q hq) rfl,zero]
    omega
  · have rank := lowest p hp
    rw [rank_unburned unburned,rank_unburned (none p hp)] at rank
    rw [Binary32.le_iff_key (numbers q hq) (numbers p hp)]
    omega

/-- What the ranks say about burns and marks. -/
theorem Leads.settled (numbers : Numbers seen) (h : b.Leads seen v) : b.Settled seen v := by
  cases h with
  | none level => exact settled_unburned numbers level
  | @some before after day confidence split low first least =>
    have number : day.isNaN = false := numbers (day,confidence) (by simp [split])
    cases burned : b.isBurned day
    · obtain ⟨_,_,eq,lowest,_⟩ := (Leads.some split low first least).lowest
      cases eq
      have confidence_zero : b.kept day confidence = 0 := by simp [kept,burned]
      rw [confidence_zero]
      exact settled_marked numbers burned low ⟨(day,confidence),by simp [split],rfl⟩ lowest
    · have confidence_own : b.kept day confidence = confidence := by simp [kept,burned]
      rw [confidence_own]
      refine .burned split burned (fun p hp other => ?_) fun p hp other => ?_
      · have rank := first p hp
        rw [rank_burned burned,rank_burned other] at rank
        rw [Binary32.lt_iff_key number (numbers p (by simp [split,hp]))]
        omega
      · have rank := least p hp
        rw [rank_burned burned,rank_burned other] at rank
        rw [Binary32.le_iff_key number (numbers p (by simp [split,hp]))]
        omega

/-- The vector of a burned day is what all its samples settle on, one partition after another: the same
as if they were one partition, and of the same day in whatever order they come. This is what the
statistic has in any ensemble, and what it gives as output. -/
theorem lived_settled (b : BurnedDay) {partitions : List (List (List Binary32))}
    (numbers : Numbers (b.seen partitions.flatten)) :
    b.Settled (b.seen partitions.flatten) ((Statistic.burnedDay b).lived partitions) ∧
    (Statistic.burnedDay b).lived partitions = (Statistic.burnedDay b).lived [partitions.flatten] ∧
    (∀ others,((b.seen others.flatten).map Prod.fst).Perm
        ((b.seen partitions.flatten).map Prod.fst) →
      ((Statistic.burnedDay b).lived others).head? =
        ((Statistic.burnedDay b).lived partitions).head?) ∧
    (Statistic.burnedDay b).output ((Statistic.burnedDay b).lived partitions) =
      (Statistic.burnedDay b).lived partitions ∧
    ∀ (e : Ensemble) k p index,e.At k (.burnedDay b) p →
      (∀ samples ∈ partitions,samples.length < 2^31) →
      p.temporal.of (e.lived index partitions).features =
        (Statistic.burnedDay b).lived partitions := by
  have own := lived_eq_settle numbers
  refine ⟨?_,?_,?_,?_,fun e k p index here few => here.lived_slice few⟩
  · rw [own]
    exact (leads_settle numbers).settled numbers
  · have joined : [partitions.flatten].flatten = partitions.flatten := List.flatten_singleton
    rw [own,lived_eq_settle (by rwa [joined]),joined]
  · intro others days
    have other : Numbers (b.seen others.flatten) := by
      intro p hp
      have mem := days.mem_iff.mp (List.mem_map_of_mem (f := Prod.fst) hp)
      obtain ⟨q,hq,same⟩ := List.mem_map.mp mem
      rw [← same]
      exact numbers q hq
    rw [own,lived_eq_settle other]
    exact (leads_settle other).day_eq (leads_settle numbers) days
  · exact List.take_of_length_le ((Statistic.burnedDay b).lived_length partitions).le

/-- Two partitions, with two burns on the earliest day and a mark before them. -/
theorem lived_settled_twice : ∃ b : BurnedDay,b.first = 1 ∧ b.last = 31 ∧ b.confidence = some 1 ∧
    Numbers (b.seen [[[Binary32.ofInt (-2),9],[5,2]],[[3,4],[3,7]]].flatten) ∧
    b.Settled (b.seen [[[Binary32.ofInt (-2),9],[5,2]],[[3,4],[3,7]]].flatten)
      ((Statistic.burnedDay b).lived [[[Binary32.ofInt (-2),9],[5,2]],[[3,4],[3,7]]]) ∧
    (Statistic.burnedDay b).lived [[[Binary32.ofInt (-2),9],[5,2]],[[3,4],[3,7]]] = [3,4] := by
  let b : BurnedDay := ⟨"day",0,some 1,1,31,by decide⟩
  have numbers : Numbers (b.seen [[[Binary32.ofInt (-2),9],[5,2]],[[3,4],[3,7]]].flatten) := by
    unfold Numbers
    decide +kernel
  exact ⟨b,rfl,rfl,rfl,numbers,(b.lived_settled numbers).1,by decide +kernel⟩

end GlobeBins.BurnedDay
