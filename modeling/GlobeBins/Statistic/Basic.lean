import GlobeBins.Mask
import GlobeBins.Statistic.Average
import GlobeBins.Statistic.LogAverage
import GlobeBins.Statistic.Extremes
import GlobeBins.Statistic.Total
import GlobeBins.Statistic.BurnedDay
import GlobeBins.Statistic.LandCover

namespace GlobeBins

/-- Samples are folded into a spatial vector, finished spatial vectors into a temporal one, and that
gives the output. -/
inductive Statistic where
  | average (s : Average)
  | logAverage (s : LogAverage)
  | extremes (s : Extremes)
  | total (s : Total)
  | burnedDay (s : BurnedDay)
  | landCover (s : LandCover)
  deriving DecidableEq

/-- How a statistic is asked for. -/
structure StatisticSetting where
  typeName : String
  input : String
  parameters : List (String × String)
  deriving DecidableEq

namespace Statistic

/-- All names a statistic can be asked for by. -/
def typeNames : List String := ["AVG","AVG_ML","MIN_MAX","SUM","JD","LC_CLASS"]

def typeName : Statistic → String
  | average _ => "AVG"
  | logAverage _ => "AVG_ML"
  | extremes _ => "MIN_MAX"
  | total _ => "SUM"
  | burnedDay _ => "JD"
  | landCover _ => "LC_CLASS"

def classNames (name : String) (classes : Nat) : List String :=
  (List.range classes).map fun c => name++"_class_"++toString c

def spatialNames : Statistic → List String
  | average s => featureNames s.name ["sum_x","sum_xx"]
  | logAverage s => featureNames s.name ["sum_x","sum_xx"]
  | extremes s => featureNames s.name ["min","max"]
  | total s => featureNames s.name ["sum"]
  | burnedDay s => featureNames s.name ["jd","cl"]
  | landCover s => classNames s.name s.classes

def temporalNames : Statistic → List String
  | average s => featureNames s.name ["sum_x","sum_xx","sum_w"]
  | logAverage s => featureNames s.name ["sum_x","sum_xx","sum_w"]
  | extremes s => featureNames s.name ["min","max"]
  | total s => featureNames s.name ["sum","count"]
  | burnedDay s => featureNames s.name ["jd","cl"]
  | landCover s => classNames s.name s.classes

def outputNames : Statistic → List String
  | average s => featureNames s.name ["mean","sigma"]
  | logAverage s => featureNames s.name ["mean","sigma","median","mode"]
  | extremes s => featureNames s.name ["min","max"]
  | total s => featureNames s.name ["sum","count"]
  | burnedDay s => featureNames s.name ["jd","cl"]
  | landCover s =>
    (s.name++"_majority_class")::(classNames s.name s.classes).map fun n => n++"_fraction"

def spatialWidth : Statistic → Nat
  | average _ | logAverage _ | extremes _ | burnedDay _ => 2
  | total _ => 1
  | landCover s => s.classes

def temporalWidth : Statistic → Nat
  | average _ | logAverage _ => 3
  | extremes _ | total _ | burnedDay _ => 2
  | landCover s => s.classes

def outputWidth : Statistic → Nat
  | average _ | extremes _ | total _ | burnedDay _ => 2
  | logAverage _ => 4
  | landCover s => s.classes+1

theorem spatialNames_length (s : Statistic) : s.spatialNames.length = s.spatialWidth := by
  cases s <;> simp [spatialNames,spatialWidth,featureNames,classNames]

theorem temporalNames_length (s : Statistic) : s.temporalNames.length = s.temporalWidth := by
  cases s <;> simp [temporalNames,temporalWidth,featureNames,classNames]

theorem outputNames_length (s : Statistic) : s.outputNames.length = s.outputWidth := by
  cases s <;> simp [outputNames,outputWidth,featureNames,classNames]

/-- Output of a cell without data. -/
def fill : Statistic → Binary32
  | average s => s.fill
  | extremes s => s.fill
  | _ => Binary32.nan

/-- Whether the samples can be folded at all. -/
def accepts (samples : List Binary32) : Statistic → Bool
  | logAverage s => LogAverage.accepts s.source samples
  | _ => true

/-- Folds the sample at a position, if there is one. -/
def foldSample (source : Nat) (f : Binary32 → List Binary32 → List Binary32)
    (samples v : List Binary32) : List Binary32 :=
  match samples[source]? with
  | some x => f x v
  | none => v

/-- Neutral spatial vector. -/
def neutralSpatial : Statistic → List Binary32
  | average _ | logAverage _ | burnedDay _ => [0,0]
  | extremes _ => Extremes.neutral
  | total _ => [0]
  | landCover s => List.replicate s.classes 0

def addSamples (samples v : List Binary32) : Statistic → List Binary32
  | average s => foldSample s.source Average.addSample samples v
  | logAverage s => foldSample s.source LogAverage.addSample samples v
  | extremes s => foldSample s.source (fun x => Extremes.widen x x) samples v
  | total s => foldSample s.source Total.addSample samples v
  | burnedDay s => s.addSample samples v
  | landCover s => foldSample s.source (LandCover.addSample s.classes) samples v

/-- Ends a cell's part of a partition, given its observation count. -/
def finishSpatial (count : Int) (v : List Binary32) : Statistic → List Binary32
  | average _ => Average.divideByCount count v
  | logAverage _ => LogAverage.divideByRoot count v
  | _ => v

/-- Neutral temporal vector. -/
def neutralTemporal : Statistic → List Binary32
  | average _ | logAverage _ => [0,0,0]
  | extremes _ => Extremes.neutral
  | total _ | burnedDay _ => [0,0]
  | landCover s => List.replicate s.classes 0

/-- Merges a finished spatial vector of `count` observations. -/
def addCell (cell : List Binary32) (count : Int) (v : List Binary32) :
    Statistic → List Binary32
  | average s => Average.addCell (Arithmetic.countPower count s.weight) cell v
  | logAverage _ => LogAverage.addCell cell count v
  | extremes _ => Extremes.addCell cell v
  | total _ => Total.addCell cell count v
  | burnedDay s => s.addCell cell v
  | landCover _ => LandCover.addCell cell v

/-- Every temporal vector is final as it is merged. -/
def finishTemporal (v : List Binary32) : Statistic → List Binary32
  | _ => v

def output (v : List Binary32) : Statistic → List Binary32
  | average s => Average.output s.fill v
  | logAverage _ => LogAverage.output Binary32.nan v
  | extremes s => Extremes.output s.fill v
  | total _ | burnedDay _ => v.take 2
  | landCover _ => LandCover.output Binary32.nan v

theorem neutralSpatial_length (s : Statistic) : s.neutralSpatial.length = s.spatialWidth := by
  cases s <;> simp [neutralSpatial,spatialWidth,Extremes.neutral]

theorem neutralTemporal_length (s : Statistic) : s.neutralTemporal.length = s.temporalWidth := by
  cases s <;> simp [neutralTemporal,temporalWidth,Extremes.neutral]

def resolve (vs : List Variable) (typeName name : String) : Except Fault Nat :=
  match Variable.indexOf? vs name with
  | some i => .ok i
  | none => .error (.unknownVariable typeName name)

/-- Type names count without blanks around them and in any case. -/
def canonicalName (typeName : String) : String :=
  String.ofList ((Text.trimChars typeName.toList).map Char.toUpper)

/-- The statistic that a setting asks for; `index` is its position among the settings. -/
def ofSetting (vs : List Variable) (index : Nat) (s : StatisticSetting) :
    Except Fault Statistic :=
  let kind := canonicalName s.typeName
  let p : Parameters := ⟨kind,s.parameters⟩
  let source := resolve vs kind s.input
  if kind = "AVG" then do average <$> Average.ofParameters s.input (← source) p
  else if kind = "AVG_ML" then do logAverage <$> LogAverage.ofParameters s.input (← source) p
  else if kind = "MIN_MAX" then do extremes <$> Extremes.ofParameters s.input (← source) p
  else if kind = "SUM" then do total <$> Total.ofParameters s.input (← source) p
  else if kind = "JD" then do
    let confidence ← match ← p.get? Parameters.text? "confidence_variable" with
      | some name => some <$> resolve vs kind name
      | none => .ok none
    burnedDay <$> BurnedDay.ofParameters s.input (← source) confidence p
  else if kind = "LC_CLASS" then do landCover <$> LandCover.ofParameters s.input (← source) p
  else .error (.unknownStatistic index s.typeName)

end Statistic

end GlobeBins
