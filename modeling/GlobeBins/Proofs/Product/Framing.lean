import GlobeBins.Product
import GlobeBins.Proofs.Disk
import GlobeBins.Proofs.Grid.Centers
import GlobeBins.Proofs.Json.RoundTrip
import GlobeBins.Proofs.Text.Lines

namespace GlobeBins.Product

open Json (Value)

theorem header_fits {m : Metadata} (depth : Nat) (word : m.rows < 2^64) :
    (header m).Fits (depth+2) := by
  have low := m.region.le_toInt
  have high := m.region.toInt_lt
  have period (p : Period) : p.toJson.Fits (depth+1) := by
    refine .object (by simp) ?_
    simp only [List.forall_mem_cons]
    exact ⟨.text _,.text _,List.forall_mem_nil _⟩
  refine .object (by simp) ?_
  simp only [List.forall_mem_cons]
  refine ⟨.text _,.integer (by omega) (by omega),.text _,.text _,?_,.integer (by omega) (by omega),
    .array ?_,List.forall_mem_nil _⟩
  · cases m.period with
    | none => exact .null
    | some p => exact period p
  · intro v mem
    obtain ⟨s,_,rfl⟩ := List.mem_map.mp mem
    exact .text s

/-- A header as it is read back. -/
def storedHeader (m : Metadata) : Value :=
  .object [("job_id",.text m.job),("region_index",.integer m.region.toInt),
    ("region_name",.text m.name),("region_wkt",.text m.wkt),
    ("time_range",match m.period with
      | some p => .object [("start",.text p.start),("end",.text p.finish)]
      | none => .null),
    ("num_rows",.integer m.rows),("feature_names",.array (m.features.map .text))]

theorem header_stored (m : Metadata) : (header m).stored = storedHeader m := by
  have features : Json.storedItems (m.features.map .text) = m.features.map .text := by
    rw [Json.storedItems_eq,List.map_map]
    rfl
  obtain ⟨job,region,name,wkt,period,rows,names⟩ := m
  cases period <;>
    simp only [header,storedHeader,Period.toJson,Value.stored,Json.storedMembers,features]

theorem record_fits (depth : Nat) (g : Grid) (b : RegionBin Binary32) (output : List Binary32) :
    (record g b output).Fits (depth+2) := by
  have index := b.key.bin.le_toInt
  have index' := b.key.bin.toInt_lt
  have count := b.bin.observations.le_toInt
  have count' := b.bin.observations.toInt_lt
  have passes := b.bin.passes.le_toInt
  have passes' := b.bin.passes.toInt_lt
  refine .object (by simp) ?_
  simp only [List.forall_mem_cons]
  refine ⟨.integer (by omega) (by omega),.double _,.double _,.integer (by omega) (by omega),
    .integer (by omega) (by omega),.array ?_,List.forall_mem_nil _⟩
  intro v mem
  obtain ⟨x,_,rfl⟩ := List.mem_map.mp mem
  exact .single x

/-- A record as it is read back. Features that are not finite are null. -/
def storedRecord (g : Grid) (b : RegionBin Binary32) (output : List Binary32) : Value :=
  let (lat,lon) := g.center b.key.bin
  .object [("bin_index",.integer b.key.bin.toInt),("lat",.double lat),("lon",.double lon),
    ("num_obs",.integer b.bin.observations.toInt),("num_passes",.integer b.bin.passes.toInt),
    ("features",.array (output.map fun x => if x.isFinite then .double x.written else .null))]

theorem record_stored {g : Grid} (word : g.rows ≤ 2^64) (b : RegionBin Binary32)
    (output : List Binary32) : (record g b output).stored = storedRecord g b output := by
  obtain ⟨lat,lon⟩ := Grid.center_finite word b.key.bin
  have features : Json.storedItems (output.map .single) =
      output.map fun x => if x.isFinite then .double x.written else .null := by
    rw [Json.storedItems_eq,List.map_map]
    rfl
  simp only [record,storedRecord,Value.stored,Json.storedMembers,features,lat,lon,if_true]

section

variable {depth : Nat} {values : List Value}

/-- Each value is on a line of its own. -/
theorem lines_text (fits : ∀ v ∈ values,v.Fits depth) :
    Text.lines (Text.toBytes (text values)) = values.map fun v => Text.toBytes v.render := by
  have shown : ∀ cs ∈ values.map Value.chars,∀ c ∈ cs,0x20 ≤ c.toNat :=
    List.forall_mem_map.mpr fun v mem => (fits v mem).allVisible
  have lines := Text.lines_texts shown
  rw [List.flatMap_map,List.map_map] at lines
  exact lines

/-- What is read from the text of a product. -/
theorem ofBytes_text {v : Value} (fits : ∀ w ∈ v::values,w.Fits 127) :
    ofBytes (Text.toBytes (text (v::values))) = .ok (v.stored,values.map Value.stored) := by
  have read : (Text.lines (Text.toBytes (text (v::values)))).mapM (fun line =>
      (Value.parse ((Text.ofBytes? line).getD "")).mapError Fault.json) =
        .ok ((v::values).map Value.stored) := by
    rw [lines_text fits,mapM_eq_ok,List.forall₂_map_left_iff,List.forall₂_map_right_iff,
      List.forall₂_same]
    intro w mem
    rw [Text.ofBytes?_toBytes,Option.getD_some,Value.parse_render (fits w mem)]
    rfl
  unfold ofBytes
  rw [Text.ofBytes?_toBytes]
  simp only [read,ok_bind]
  rfl

theorem read_content {σ : Type} {files : Files (StateM σ)} {path : String} {w : σ} {content : Bytes}
    (h : files.content path w = .ok content) : ((read files path).run w).1 = ofBytes content := by
  unfold Files.content at h
  unfold read
  rw [StateT.run_bind]
  generalize (files.read path).run w = found at h ⊢
  obtain ⟨result,w'⟩ := found
  cases h
  rfl

end

end GlobeBins.Product
