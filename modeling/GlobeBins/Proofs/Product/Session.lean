import GlobeBins.Product.Writer
import GlobeBins.Proofs.Product.Framing
import GlobeBins.Proofs.Product.Histories

namespace GlobeBins

namespace ProductWriter

open ProductCall

/-- Where the product of some metadata is written. -/
def productPath (directory : String) (m : Metadata) : String := (inDirectory directory).pathOf m

/-- Header and records of a product. -/
def productLines (grid : Grid) (m : Metadata) (records : List ProductRecord) : List Json.Value :=
  Product.header m::records.map fun r => Product.record grid r.1 r.2

section

variable {σ : Type} (files : Files (StateM σ)) (fine : σ → Prop) (usable : String → Prop)
  (directory : String)

/-- The file of a product holds its lines. -/
def Filed (w : σ) (m : Metadata) (records : List ProductRecord) : Prop :=
  ∃ grid,Grid.make m.rows = .ok grid ∧ files.content (productPath directory m) w =
    .ok (Text.toBytes (Product.text (productLines grid m records)))

/-- Every product that was closed, and whose path has not been begun again, is in its file. -/
def Holds (calls : List ProductCall) (w : σ) : Prop :=
  ∀ (before : List ProductCall) (m : Metadata) (records : List ProductRecord) (c : ProductCall)
    (after : List ProductCall),calls = before++.start m::records.map ofRecord++c::after →
      c.closes = true →
      (∀ n,.start n ∈ c::after → productPath directory n ≠ productPath directory m) →
        Filed files directory w m records

/-- Where a writer is after some calls. -/
structure Account (calls : List ProductCall) (now : ProductWriter) (w : σ) : Prop where
  sound : fine w
  place : now.directory = directory
  written : now.written = (closed calls).map (productPath directory)
  opened (m : Metadata) (records : List ProductRecord) : Opened calls m records →
    ∃ grid,Grid.make m.rows = .ok grid ∧ now.current =
      some ⟨m.name,productPath directory m,grid,(productLines grid m records).toArray⟩
  none : (∀ m records,¬Opened calls m records) → now.current = none
  holds : Holds files directory calls w

variable {files fine usable directory} (reliable : files.Reliable fine usable) {now : ProductWriter}
  {w : σ} {calls : List ProductCall}

theorem close_none (h : now.current = none) : (now.close files).run w = ((.ok (),now),w) := by
  rw [close,h]
  rfl

include reliable in
theorem close_some {p : OpenProduct} (h : now.current = some p) (here : fine w)
    (there : usable p.path) : ∃ w',
      (now.close files).run w = ((.ok (),⟨now.directory,none,now.written++[p.path]⟩),w') ∧
      fine w' ∧ files.content p.path w' = .ok (Text.toBytes (Product.text p.lines.toList)) ∧
      ∀ other,usable other → other ≠ p.path → files.content other w' = files.content other w := by
  obtain ⟨w',wrote,law⟩ := reliable.write (Text.toBytes (Product.text p.lines.toList)) here there
  refine ⟨w',?_,law⟩
  rw [close,h]
  simp only [StateT.run_bind]
  rw [wrote]
  rfl

variable {d : ProductCall}

/-- Nothing is lost if a call writes no other files than those of the product that is open and of the
one that it begins. -/
theorem Holds.snoc {w' : σ} (h : Holds files directory calls w)
    (new : d.closes = true → ∀ m records,Opened calls m records →
      (∀ n,d = .start n → productPath directory n ≠ productPath directory m) →
        Filed files directory w' m records)
    (old : ∀ m,.start m ∈ calls →
      (∀ n records,Opened calls n records → productPath directory n ≠ productPath directory m) →
      (∀ n,d = .start n → productPath directory n ≠ productPath directory m) →
        files.content (productPath directory m) w' = files.content (productPath directory m) w) :
    Holds files directory (calls++[d]) w' := by
  intro before m records c after eq closes other
  rcases snoc_eq_split.mp eq with ⟨rfl,rfl,rfl⟩ | ⟨more,rfl,rfl⟩
  · exact new closes m records ⟨before,rfl⟩ fun n same => other n (same ▸ List.mem_cons_self)
  · have later (n : Metadata) (mem : .start n ∈ c::more) :
        productPath directory n ≠ productPath directory m :=
      other n (by rw [← List.cons_append]; exact List.mem_append_left _ mem)
    obtain ⟨grid,made,content⟩ := h before m records c more rfl closes later
    refine ⟨grid,made,(old m (by simp) ?_ ?_).trans content⟩
    · -- what is open now was begun after this product had been closed
      exact fun n _ opened => later n (opened.start_mem_after closes)
    · exact fun n same => other n (by simp [same])

/-- The writer has nothing open. -/
def idle (directory : String) (calls : List ProductCall) : ProductWriter :=
  ⟨directory,none,(begun calls).map (productPath directory)⟩

/-- A bin makes a record of the product that is open; without one it is refused. -/
theorem Account.bin (h : Account files fine directory calls now w) (b : RegionBin Binary32)
    (output : List Binary32) : ∃ r next,now.addBin b output = (r,next) ∧
      Account files fine directory (calls++[.bin b output]) next w ∧
      ((∃ m records,Opened calls m records) → r = .ok ()) ∧
      ((∀ m records,¬Opened calls m records) → r = .error (.output "" .other) ∧ next = now) := by
  have holds : Holds files directory (calls++[.bin b output]) w :=
    h.holds.snoc nofun fun _ _ _ _ => rfl
  have written : now.written = (closed (calls++[.bin b output])).map (productPath directory) := by
    rw [closed_bin,h.written]
  by_cases some : ∃ m records,Opened calls m records
  · obtain ⟨m,records,before⟩ := some
    obtain ⟨grid,made,current⟩ := h.opened m records before
    have longer : Opened (calls++[.bin b output]) m (records++[(b,output)]) :=
      opened_bin.mpr ⟨records,rfl,before⟩
    have added : now.addBin b output = (.ok (),⟨now.directory,some ⟨m.name,productPath directory m,grid,
        (productLines grid m records).toArray.push (Product.record grid b output)⟩,now.written⟩) := by
      rw [addBin,current]
    refine ⟨_,_,added,⟨h.sound,h.place,written,?_,?_,holds⟩,fun _ => rfl,?_⟩
    · intro n more opened
      obtain ⟨rfl,rfl⟩ := longer.unique opened
      exact ⟨grid,made,by simp [productLines]⟩
    · exact fun none => absurd longer (none _ _)
    · exact fun none => absurd before (none _ _)
  · simp only [not_exists] at some
    have current := h.none some
    have still (m : Metadata) (records : List ProductRecord) :
        ¬Opened (calls++[.bin b output]) m records := by
      rw [opened_bin]
      rintro ⟨more,_,before⟩
      exact some _ _ before
    refine ⟨_,_,addBin_of_closed b output current,⟨h.sound,h.place,written,?_,fun _ => current,holds⟩,
      ?_,fun _ => ⟨rfl,rfl⟩⟩
    · exact fun m records opened => absurd opened (still m records)
    · rintro ⟨m,records,before⟩
      exact absurd before (some m records)

include reliable in
/-- Closing puts the product that is open into its file and leaves all others. -/
theorem Account.close (h : Account files fine directory calls now w)
    (valid : ∀ m,.start m ∈ calls → usable (productPath directory m)) : ∃ w',
      (now.close files).run w = ((.ok (),idle directory calls),w') ∧ fine w' ∧
      (∀ m records,Opened calls m records → Filed files directory w' m records) ∧
      ∀ other,usable other → (∀ m records,Opened calls m records → productPath directory m ≠ other) →
        files.content other w' = files.content other w := by
  by_cases some : ∃ m records,Opened calls m records
  · obtain ⟨m,records,opened⟩ := some
    obtain ⟨grid,made,current⟩ := h.opened m records opened
    obtain ⟨w',ran,sound,content,others⟩ :=
      close_some reliable current h.sound (valid m opened.start_mem)
    refine ⟨w',?_,sound,?_,?_⟩
    · rw [ran,h.place,h.written,idle,opened.begun_eq,List.map_append]
      rfl
    · intro n more same
      obtain ⟨rfl,rfl⟩ := opened.unique same
      exact ⟨grid,made,content⟩
    · exact fun other there apart => others other there (apart m records opened).symm
  · simp only [not_exists] at some
    have current := h.none some
    have same : now = idle directory calls := by
      obtain ⟨place,current',written⟩ := now
      cases h.place
      cases current
      rw [idle,begun_eq_closed some,← h.written]
    refine ⟨w,?_,h.sound,fun m records opened => absurd opened (some m records),fun _ _ _ => rfl⟩
    rw [close_none current,← same]

include reliable in
theorem Account.finish (h : Account files fine directory calls now w)
    (valid : ∀ m,.start m ∈ calls → usable (productPath directory m)) : ∃ next w',
      (now.apply files .finish).run w = ((.ok (),next),w') ∧
        Account files fine directory (calls++[.finish]) next w' := by
  obtain ⟨w',ran,sound,filed,others⟩ := h.close reliable valid
  refine ⟨_,w',ran,sound,rfl,?_,?_,fun _ => rfl,?_⟩
  · rw [closed_closes rfl,idle]
  · exact fun m records opened => absurd opened not_opened_finish
  · exact h.holds.snoc (fun _ m records opened _ => filed m records opened)
      fun m mem apart _ => others _ (valid m mem) apart

include reliable in
/-- Beginning a product closes the one before it and makes an empty file. -/
theorem Account.start (h : Account files fine directory calls now w)
    (valid : ∀ m,.start m ∈ calls → usable (productPath directory m)) {m : Metadata} {grid : Grid}
    (there : usable (productPath directory m)) (made : Grid.make m.rows = .ok grid) : ∃ next w',
      (now.apply files (.start m)).run w = ((.ok (),next),w') ∧
        Account files fine directory (calls++[.start m]) next w' := by
  obtain ⟨w₁,closing,sound,filed,others⟩ := h.close reliable valid
  obtain ⟨w₂,wrote,sound',_,others'⟩ := reliable.write [] sound there
  let next : ProductWriter := ⟨directory,some ⟨m.name,productPath directory m,grid,#[Product.header m]⟩,
    (begun calls).map (productPath directory)⟩
  have opening : ((idle directory calls).openProduct files m).run w₁ = ((.ok (),next),w₂) := by
    have path : (idle directory calls).pathOf m = productPath directory m := rfl
    rw [openProduct,path,StateT.run_bind,wrote,made]
    rfl
  have run : (now.apply files (.start m)).run w = ((.ok (),next),w₂) := by
    rw [apply,StateT.run_bind,closing]
    exact opening
  have apart {n : Metadata} (other : ∀ k,.start m = ProductCall.start k →
      productPath directory k ≠ productPath directory n) :
      productPath directory n ≠ productPath directory m := (other m rfl).symm
  refine ⟨next,w₂,run,sound',rfl,?_,?_,?_,?_⟩
  · rw [closed_closes rfl]
  · intro n records opened
    obtain ⟨rfl,rfl⟩ := opened_start.mp opened
    exact ⟨grid,made,rfl⟩
  · exact fun none => absurd (opened_start.mpr ⟨rfl,rfl⟩) (none m [])
  · refine h.holds.snoc ?_ ?_
    · intro _ n records opened other
      obtain ⟨g,made',content⟩ := filed n records opened
      exact ⟨g,made',(others' _ (valid n opened.start_mem) (apart other)).trans content⟩
    · intro n mem unopened other
      exact (others' _ (valid n mem) (apart other)).trans (others _ (valid n mem) unopened)

end

/-- What calls to a writer have come to. -/
structure Session (σ : Type) where
  results : List (Except Fault Unit)
  writer : ProductWriter
  world : σ

/-- The product can be begun. -/
structure Startable (usable : String → Prop) (directory : String) (m : Metadata) : Prop where
  path : usable (productPath directory m)
  positive : 0 < m.rows
  even : m.rows%2 = 0
  word : m.rows < 2^64

/-- What one call gives. A bin is refused when no product is open, and then nothing changes. -/
structure Answered {σ : Type} (calls : List ProductCall) (c : ProductCall) (before after : Session σ) :
    Prop where
  accepted : c.closes = true ∨ (∃ m records,Opened calls m records) →
    after.results = before.results++[.ok ()]
  refused : c.closes = false → (∀ m records,¬Opened calls m records) →
    after = ⟨before.results++[.error (.output "" .other)],before.writer,before.world⟩

section

variable {σ : Type} (files : Files (StateM σ)) (directory : String)

def Session.call (s : Session σ) (c : ProductCall) : Session σ :=
  let ran := (s.writer.apply files c).run s.world
  ⟨s.results++[ran.1.1],ran.1.2,ran.2⟩

/-- A product is in its file, header and records on a line each, and is read as it was written. -/
structure Kept (w : σ) (m : Metadata) (records : List ProductRecord) (grid : Grid) : Prop where
  made : Grid.make m.rows = .ok grid
  content : files.content (productPath directory m) w =
    .ok (Text.toBytes (Product.text (productLines grid m records)))
  lines : Text.lines (Text.toBytes (Product.text (productLines grid m records))) =
    (productLines grid m records).map fun v => Text.toBytes v.render
  read : ((Product.read files (productPath directory m)).run w).1 =
    .ok (Product.storedHeader m,records.map fun r => Product.storedRecord grid r.1 r.2)

variable {files directory} {fine : σ → Prop} {usable : String → Prop} {calls : List ProductCall}
  {w : σ}

theorem Startable.grid {m : Metadata} (h : Startable usable directory m) :
    ∃ grid,Grid.make m.rows = .ok grid := by
  have some := h.positive
  have even := h.even
  exact ⟨_,(dif_neg (by omega)).trans (if_neg (by omega))⟩

theorem Account.empty (sound : fine w) : Account files fine directory [] (inDirectory directory) w :=
  ⟨sound,rfl,rfl,fun _ _ opened => absurd opened not_opened_nil,fun _ => rfl,
    fun _ _ _ _ _ eq => by simp at eq⟩

theorem Account.call (reliable : files.Reliable fine usable) {s : Session σ} {c : ProductCall}
    (h : Account files fine directory calls s.writer s.world)
    (valid : ∀ m,.start m ∈ calls++[c] → Startable usable directory m) :
    Answered calls c s (s.call files c) ∧
      Account files fine directory (calls++[c]) (s.call files c).writer (s.call files c).world := by
  have paths (m : Metadata) (mem : .start m ∈ calls) : usable (productPath directory m) :=
    (valid m (List.mem_append_left _ mem)).path
  have called {r : Except Fault Unit} {next : ProductWriter} {w' : σ}
      (ran : (s.writer.apply files c).run s.world = ((r,next),w')) :
      s.call files c = ⟨s.results++[r],next,w'⟩ := by
    rw [Session.call,ran]
  cases c with
  | start m =>
    have startable := valid m (by simp)
    obtain ⟨grid,made⟩ := startable.grid
    obtain ⟨next,w',ran,account⟩ := h.start reliable paths startable.path made
    rw [called ran]
    exact ⟨⟨fun _ => rfl,nofun⟩,account⟩
  | bin b output =>
    obtain ⟨r,next,ran,account,accepted,refused⟩ := h.bin b output
    have ran' : (s.writer.apply files (.bin b output)).run s.world = ((r,next),s.world) := by
      rw [apply,ran]
      rfl
    rw [called ran']
    refine ⟨⟨?_,?_⟩,account⟩
    · rintro (closes | some)
      · cases closes
      · rw [accepted some]
    · intro _ none
      obtain ⟨rfl,rfl⟩ := refused none
      rfl
  | finish =>
    obtain ⟨next,w',ran,account⟩ := h.finish reliable paths
    rw [called ran]
    exact ⟨⟨fun _ => rfl,nofun⟩,account⟩

theorem productLines_fits {m : Metadata} (word : m.rows < 2^64) (grid : Grid)
    (records : List ProductRecord) : ∀ v ∈ productLines grid m records,v.Fits 127 := by
  simp only [productLines,List.forall_mem_cons,List.forall_mem_map]
  exact ⟨Product.header_fits 125 word,fun r _ => Product.record_fits 125 grid r.1 r.2⟩

theorem Filed.kept {m : Metadata} {records : List ProductRecord} (word : m.rows < 2^64)
    (h : Filed files directory w m records) : ∃ grid,Kept files directory w m records grid := by
  obtain ⟨grid,made,content⟩ := h
  have fits := productLines_fits word grid records
  have rows : grid.rows ≤ 2^64 := by
    rw [Grid.makeWith_rows made]
    exact word.le
  refine ⟨grid,⟨made,content,Product.lines_text fits,(Product.read_content content).trans ?_⟩⟩
  refine (Product.ofBytes_text fits).trans ?_
  rw [Product.header_stored,List.map_map]
  congr 2
  exact List.map_congr_left fun r _ => Product.record_stored rows r.1 r.2

end

end ProductWriter

end GlobeBins
