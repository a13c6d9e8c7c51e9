import GlobeBins.Calendar
import GlobeBins.Region
import GlobeBins.Statistic.Basic
import GlobeBins.Word

namespace GlobeBins

/-- Dates as written. -/
structure Period where
  start : String
  finish : String
  deriving DecidableEq

structure Settings where
  rows : Nat
  reducers : Nat
  regionPartitions : Nat
  byteOrder : ByteOrder
  vars : List Variable
  statistics : List StatisticSetting
  regions : List RegionSetting
  period : Option Period
  deriving DecidableEq

namespace Settings

def defaultRows : Nat := 2160

/-- First name that occurs earlier in the list, or among those seen. -/
def repeated? (seen : List String) : List String → Option String
  | [] => none
  | n::ns => if seen.contains n then some n else repeated? (n::seen) ns

def rowsViolation? (rows : Nat) : Option Violation :=
  if rows = 0 then some .noRows else if rows%2 ≠ 0 then some (.oddRows rows) else none

def maskViolation? (vs : List Variable) : Option Violation :=
  vs.findSome? fun v => v.mask.bind Mask.violation?

def periodViolation? (p : Period) : Option Violation :=
  match Date.parse? p.start,Date.parse? p.finish with
  | some start,some finish =>
    if start.isAfter finish then some (.periodReversed p.start p.finish) else none
  | _,_ => some .dateForm

variable (s : Settings)

/-- Rules on one setting each. -/
def fieldViolations : List Violation :=
  (if s.reducers = 0 then [.noReducers] else [])++
  (if s.regionPartitions = 0 then [.noRegionPartitions] else [])++
  (if s.vars.isEmpty then [.noVariables] else [])++
  (if s.statistics.isEmpty then [.noStatistics] else [])

/-- The first of the other rules that does not hold. -/
def firstViolation? : Option Violation :=
  rowsViolation? s.rows <|> maskViolation? s.vars <|>
  (repeated? [] (s.vars.map Variable.name)).map .variableRepeated <|>
  (repeated? [] (s.regions.map RegionSetting.name)).map .regionRepeated <|>
  s.period.bind periodViolation?

def violations : List Violation := s.fieldViolations++s.firstViolation?.toList

def validate : Except Fault Unit :=
  if s.violations.isEmpty then .ok () else .error (.settings s.violations)

theorem repeated?_eq_none_iff (seen ns : List String) :
    repeated? seen ns = none ↔ ns.Nodup ∧ ∀ n ∈ ns,n ∉ seen := by
  induction ns generalizing seen with
  | nil => simp [repeated?]
  | cons n ns ih =>
    rw [repeated?]
    by_cases h : seen.contains n = true
    · rw [if_pos h]
      have h' : n ∈ seen := by simpa using h
      constructor
      · intro k
        cases k
      · rintro ⟨_,k⟩
        exact absurd h' (k n (by simp))
    · rw [if_neg h,ih]
      have h' : n ∉ seen := by simpa using h
      simp only [List.nodup_cons,List.mem_cons,not_or,forall_eq_or_imp]
      constructor
      · rintro ⟨hn,k⟩
        exact ⟨⟨fun m => (k n m).1 rfl,hn⟩,h',fun a ha => (k a ha).2⟩
      · rintro ⟨⟨hm,hn⟩,_,k⟩
        exact ⟨hn,fun a ha => ⟨fun e => hm (e ▸ ha),k a ha⟩⟩

end Settings

section

/-- A record of two values while it is being read. -/
structure DraftPair (α β : Type) where
  first : Option α
  second : Option β

variable {α β : Type}

/-- Reads a record of two required texts. -/
def readTextPair (first second : String) : Json.Reader (String × String) := fun t => do
  let fields : List (Json.Field (DraftPair String String)) :=
    [.required first DraftPair.first (fun d x => ⟨some x,d.second⟩) Json.Reader.text,
      .required second DraftPair.second (fun d x => ⟨d.first,some x⟩) Json.Reader.text]
  match ← Json.readRecord fields true ⟨none,none⟩ t with
  | ⟨some x,some y⟩ => .ok (x,y)
  | _ => .error .malformed

end

def ByteOrder.reader : Json.Reader ByteOrder :=
  let named : String → Option ByteOrder := fun name =>
    if name = "big" then some .big else if name = "little" then some .little else none
  .variant ["big","little"] named fun name t => do
    Json.Reader.null t
    match named name with
    | some order => .ok order
    | none => .error .malformed

namespace Period

def reader : Json.Reader Period := fun t => do
  let (start,finish) ← readTextPair "start" "end" t
  .ok ⟨start,finish⟩

def toJson (p : Period) : Json.Value := .object [("start",.text p.start),("end",.text p.finish)]

end Period

namespace RegionSetting

def reader : Json.Reader RegionSetting := fun t => do
  let (name,wkt) ← readTextPair "name" "wkt" t
  .ok ⟨name,wkt⟩

def toJson (r : RegionSetting) : Json.Value := .object [("name",.text r.name),("wkt",.text r.wkt)]

end RegionSetting

namespace Variable

def reader : Json.Reader Variable := fun t => do
  let fields : List (Json.Field (DraftPair String (Option Mask))) :=
    [.required "name" DraftPair.first (fun d x => ⟨some x,d.second⟩) Json.Reader.text,
      .nullable "missing" DraftPair.second (fun d x => ⟨d.first,some x⟩) Mask.reader]
  match ← Json.readRecord fields true ⟨none,none⟩ t with
  | ⟨some name,mask⟩ => .ok ⟨name,mask.join⟩
  | _ => .error .malformed

def toJson (v : Variable) : Json.Value :=
  .object [("name",.text v.name),("missing",match v.mask with | some m => m.toJson | none => .null)]

end Variable

namespace StatisticSetting

structure Draft where
  typeName : Option String
  input : Option String
  parameters : Option (List (String × String))

def fields : List (Json.Field Draft) :=
  [.required "type" Draft.typeName (fun d x => {d with typeName := some x}) Json.Reader.text,
    .required "input_variable" Draft.input (fun d x => {d with input := some x}) Json.Reader.text,
    .defaulted "parameters" Draft.parameters (fun d x => {d with parameters := some x})
      Json.Reader.table]

def reader : Json.Reader StatisticSetting := fun t => do
  match ← Json.readRecord fields true ⟨none,none,none⟩ t with
  | ⟨some typeName,some input,parameters⟩ => .ok ⟨typeName,input,parameters.getD []⟩
  | _ => .error .malformed

def toJson (s : StatisticSetting) : Json.Value :=
  .object [("type",.text s.typeName),("input_variable",.text s.input),
    ("parameters",.object (s.parameters.map fun p => (p.1,.text p.2)))]

end StatisticSetting

namespace Settings

structure Draft where
  rows : Option Nat
  reducers : Option Nat
  regionPartitions : Option Nat
  byteOrder : Option ByteOrder
  vars : Option (List Variable)
  statistics : Option (List StatisticSetting)
  regions : Option (List RegionSetting)
  period : Option (Option Period)

def fields : List (Json.Field Draft) :=
  [.defaulted "num_rows" Draft.rows (fun d x => {d with rows := some x}) Json.Reader.word,
    .defaulted "num_reducers" Draft.reducers (fun d x => {d with reducers := some x})
      Json.Reader.word,
    .defaulted "num_region_partitions" Draft.regionPartitions
      (fun d x => {d with regionPartitions := some x}) Json.Reader.word,
    .defaulted "byte_order" Draft.byteOrder (fun d x => {d with byteOrder := some x})
      ByteOrder.reader,
    .required "variables" Draft.vars (fun d x => {d with vars := some x})
      (Json.Reader.list Variable.reader),
    .required "aggregators" Draft.statistics (fun d x => {d with statistics := some x})
      (Json.Reader.list StatisticSetting.reader),
    .required "regions" Draft.regions (fun d x => {d with regions := some x})
      (Json.Reader.list RegionSetting.reader),
    .nullable "time_range" Draft.period (fun d x => {d with period := some x}) Period.reader]

def reader : Json.Reader Settings := fun t => do
  match ← Json.readRecord fields true ⟨none,none,none,none,none,none,none,none⟩ t with
  | ⟨rows,reducers,regionPartitions,byteOrder,some vars,some statistics,some regions,period⟩ =>
    .ok ⟨rows.getD defaultRows,reducers.getD 1,regionPartitions.getD 1,
      byteOrder.getD ByteOrder.native,vars,statistics,regions,period.join⟩
  | _ => .error .malformed

/-- Settings from their text, which keep all rules. -/
def ofText (text : String) : Except Fault Settings := do
  let s ← (Json.decode reader text).mapError .settingsText
  s.validate
  .ok s

end Settings

end GlobeBins
