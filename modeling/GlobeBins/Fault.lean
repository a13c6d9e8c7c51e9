import GlobeBins.Json.Value
import GlobeBins.Text.Quoted

namespace GlobeBins

/-- Why an operation on a file failed. -/
inductive IoFailure where
  | notFound
  | alreadyExists
  | permissionDenied
  | isADirectory
  | notADirectory
  | invalidData
  | invalidFilename
  | storageFull
  | other
  deriving DecidableEq,Repr

inductive GridFault where
  | noRows
  | oddRows (rows : Nat)
  deriving DecidableEq,Repr

def GridFault.reason : GridFault → String
  | noRows => "number of rows must be positive"
  | oddRows rows => "number of rows must be even, got "++toString rows

inductive ParameterFault where
  | unknown
  | unparsed
  | missing
  | notFinite
  | classCount
  | notMonth
  | needsMonth
  | needsYear
  | window
  deriving DecidableEq,Repr

def ParameterFault.reason : ParameterFault → String
  | unknown => "unknown parameter"
  | unparsed => "failed to parse value"
  | missing => "required parameter is missing"
  | notFinite => "must be finite"
  | classCount => "must be between 1 and 256"
  | notMonth => "not a valid calendar month"
  | needsMonth => "required with year"
  | needsYear => "required with month"
  | window => "window must satisfy 1 <= min_doy <= max_doy <= 366"

inductive GeometryFault where
  | malformedText
  | notPolygonal
  | empty
  | notFinite
  deriving DecidableEq,Repr

def GeometryFault.reason : GeometryFault → String
  | malformedText => "malformed WKT"
  | notPolygonal => "expected POLYGON or MULTIPOLYGON"
  | empty => "geometry is empty"
  | notFinite => "coordinates must be finite"

/-- A rule of the job settings that does not hold. -/
inductive Violation where
  | noReducers
  | noRegionPartitions
  | noVariables
  | noStatistics
  | noRows
  | oddRows (rows : Nat)
  | maskNotFinite
  | maskRange (least greatest : Binary32)
  | variableRepeated (name : String)
  | regionRepeated (name : String)
  | dateForm
  | periodReversed (start finish : String)
  deriving DecidableEq

namespace Violation

/-- The setting at fault, or `__all__` for a rule on the settings together. -/
def field : Violation → String
  | noReducers => "num_reducers"
  | noRegionPartitions => "num_region_partitions"
  | noVariables => "variables"
  | noStatistics => "aggregators"
  | _ => "__all__"

def code : Violation → String
  | noReducers | noRegionPartitions => "range"
  | noVariables | noStatistics => "length"
  | noRows => "num_rows must be greater than 0"
  | oddRows _ => "num_rows must be even"
  | maskNotFinite => "Missing data descriptor values must be finite"
  | maskRange _ _ => "Missing data valid range min must be less than max"
  | variableRepeated _ => "variable names must be unique"
  | regionRepeated _ => "region names must be unique"
  | dateForm => "time_range dates must be of the form YYYY-MM-DD"
  | periodReversed _ _ => "time_range start must not be after end"

def message? : Violation → Option String
  | noReducers => some "num_reducers must be greater than 0"
  | noRegionPartitions => some "num_region_partitions must be greater than 0"
  | noVariables => some "variables must not be empty"
  | noStatistics => some "aggregators must not be empty"
  | _ => none

/-- The values that the violation names. -/
def parameters : Violation → List (String × Json.Value)
  | oddRows rows => [("num_rows",.integer rows)]
  | maskRange least greatest => [("min",.double least.toDouble),("max",.double greatest.toDouble)]
  | variableRepeated name | regionRepeated name => [("name",.text name)]
  | periodReversed start finish => [("start",.text start),("end",.text finish)]
  | _ => []

end Violation

/-- What can go wrong. Configuration faults stop a job before it reads anything; codec faults mean
that stored bins are not what was written. -/
inductive Fault where
  | grid (cause : GridFault)
  | unknownStatistic (index : Nat) (typeName : String)
  | parameter (typeName key value : String) (cause : ParameterFault)
  | unknownVariable (typeName name : String)
  | noRegions
  | region (name : String) (cause : GeometryFault)
  | mask (violation : Violation)
  | settings (violations : List Violation)
  | settingsText (problem : Json.Problem)
  | json (problem : Json.Problem)
  | partition (name : String) (failure : IoFailure)
  | observation (partition : String) (line : Nat) (problem : Json.Problem)
  | featureCount (expected actual : Nat)
  | truncated (needed available : Nat)
  | output (region : String) (failure : IoFailure)
  | io (failure : IoFailure)
  /-- A count does not fit the integers it is stored in. -/
  | overflow
  deriving DecidableEq

namespace Fault

def message : Fault → String
  | grid cause => "invalid grid: "++cause.reason
  | unknownStatistic index typeName =>
    "unknown aggregator type "++typeName++" (aggregator "++toString index++")"
  | parameter typeName key value cause =>
    "invalid parameter "++key++"="++Text.quote value++" for aggregator "++typeName++": "++
      cause.reason
  | unknownVariable typeName name =>
    "aggregator "++typeName++" refers to unknown variable "++name
  | noRegions => "region list must not be empty"
  | region name cause => "invalid geometry for region "++name++": "++cause.reason
  | mask _ | settings _ => "job configuration is not valid"
  | settingsText _ => "failed to parse job configuration"
  | json _ => "failed to parse JSON"
  | partition name _ => "failed to read partition "++name
  | observation source line _ =>
    "invalid observation in partition "++source++" at line "++toString line
  | featureCount expected actual =>
    "feature count mismatch decoding bin: expected "++toString expected++", found "++toString actual
  | truncated needed available =>
    "truncated bin data: needed "++toString needed++" bytes, "++toString available++" available"
  | output name _ => "failed to write output for region "++name
  | io _ => "I/O error"
  | overflow => "out of range integral type conversion attempted"

/-- Fatal before any partition is read. -/
def isConfiguration : Fault → Bool
  | grid _ | unknownStatistic _ _ | parameter _ _ _ _ | unknownVariable _ _ | noRegions
  | region _ _ | mask _ | settings _ | settingsText _ => true
  | _ => false

/-- Stored bins are corrupt. -/
def isCodec : Fault → Bool
  | featureCount _ _ | truncated _ _ => true
  | _ => false

end Fault

end GlobeBins
