import ColumnDecl.Text

/-! Aggregate functions. A function is known by its own name or by an alias, and behind either
any number of combinators may follow, each of which changes the function it is appended to. -/
namespace ColumnDecl

inductive Aggregate where
  | any | anyHeavy | anyLast | argMax | argMin | avg | avgWeighted | boundingRatio
  | categoricalInformationValue | corr | count | covarPop | covarSamp | deltaSum | entropy
  | firstValue | groupArray | groupArrayInsertAt | groupArrayMovingAvg | groupArrayMovingSum
  | groupArraySample | groupBitAnd | groupBitOr | groupBitXor | groupBitmap | groupBitmapAnd
  | groupBitmapOr | groupBitmapXor | groupUniqArray | histogram | kurtPop | kurtSamp
  | lastValue | mannWhitneyUTest | max | maxMap | min | minMap | quantile | quantileBFloat16
  | quantileDeterministic | quantileExact | quantileExactHigh | quantileExactLow
  | quantileExactWeighted | quantileTDigest | quantileTDigestWeighted | quantileTiming
  | quantileTimingWeighted | quantiles | quantilesBFloat16 | quantilesExact | quantilesTDigest
  | quantilesTiming | rankCorr | retention | sequenceCount | sequenceMatch
  | simpleLinearRegression | skewPop | skewSamp | stddevPop | stddevSamp
  | stochasticLinearRegression | stochasticLogisticRegression | studentTTest | sum | sumKahan
  | sumMap | sumWithOverflow | topK | topKWeighted | uniq | uniqCombined | uniqCombined64
  | uniqExact | uniqHLL12 | uniqTheta | varPop | varSamp | welchTTest | windowFunnel
  deriving DecidableEq, Repr

namespace Aggregate

def all : List Aggregate := [
  .any, .anyHeavy, .anyLast, .argMax, .argMin, .avg, .avgWeighted, .boundingRatio,
  .categoricalInformationValue, .corr, .count, .covarPop, .covarSamp, .deltaSum, .entropy,
  .firstValue, .groupArray, .groupArrayInsertAt, .groupArrayMovingAvg, .groupArrayMovingSum,
  .groupArraySample, .groupBitAnd, .groupBitOr, .groupBitXor, .groupBitmap, .groupBitmapAnd,
  .groupBitmapOr, .groupBitmapXor, .groupUniqArray, .histogram, .kurtPop, .kurtSamp, .lastValue,
  .mannWhitneyUTest, .max, .maxMap, .min, .minMap, .quantile, .quantileBFloat16,
  .quantileDeterministic, .quantileExact, .quantileExactHigh, .quantileExactLow,
  .quantileExactWeighted, .quantileTDigest, .quantileTDigestWeighted, .quantileTiming,
  .quantileTimingWeighted, .quantiles, .quantilesBFloat16, .quantilesExact, .quantilesTDigest,
  .quantilesTiming, .rankCorr, .retention, .sequenceCount, .sequenceMatch,
  .simpleLinearRegression, .skewPop, .skewSamp, .stddevPop, .stddevSamp,
  .stochasticLinearRegression, .stochasticLogisticRegression, .studentTTest, .sum, .sumKahan,
  .sumMap, .sumWithOverflow, .topK, .topKWeighted, .uniq, .uniqCombined, .uniqCombined64,
  .uniqExact, .uniqHLL12, .uniqTheta, .varPop, .varSamp, .welchTTest, .windowFunnel]

def name : Aggregate → String
  | .any => "any"
  | .anyHeavy => "anyHeavy"
  | .anyLast => "anyLast"
  | .argMax => "argMax"
  | .argMin => "argMin"
  | .avg => "avg"
  | .avgWeighted => "avgWeighted"
  | .boundingRatio => "boundingRatio"
  | .categoricalInformationValue => "categoricalInformationValue"
  | .corr => "corr"
  | .count => "count"
  | .covarPop => "covarPop"
  | .covarSamp => "covarSamp"
  | .deltaSum => "deltaSum"
  | .entropy => "entropy"
  | .firstValue => "first_value"
  | .groupArray => "groupArray"
  | .groupArrayInsertAt => "groupArrayInsertAt"
  | .groupArrayMovingAvg => "groupArrayMovingAvg"
  | .groupArrayMovingSum => "groupArrayMovingSum"
  | .groupArraySample => "groupArraySample"
  | .groupBitAnd => "groupBitAnd"
  | .groupBitOr => "groupBitOr"
  | .groupBitXor => "groupBitXor"
  | .groupBitmap => "groupBitmap"
  | .groupBitmapAnd => "groupBitmapAnd"
  | .groupBitmapOr => "groupBitmapOr"
  | .groupBitmapXor => "groupBitmapXor"
  | .groupUniqArray => "groupUniqArray"
  | .histogram => "histogram"
  | .kurtPop => "kurtPop"
  | .kurtSamp => "kurtSamp"
  | .lastValue => "last_value"
  | .mannWhitneyUTest => "mannWhitneyUTest"
  | .max => "max"
  | .maxMap => "maxMap"
  | .min => "min"
  | .minMap => "minMap"
  | .quantile => "quantile"
  | .quantileBFloat16 => "quantileBFloat16"
  | .quantileDeterministic => "quantileDeterministic"
  | .quantileExact => "quantileExact"
  | .quantileExactHigh => "quantileExactHigh"
  | .quantileExactLow => "quantileExactLow"
  | .quantileExactWeighted => "quantileExactWeighted"
  | .quantileTDigest => "quantileTDigest"
  | .quantileTDigestWeighted => "quantileTDigestWeighted"
  | .quantileTiming => "quantileTiming"
  | .quantileTimingWeighted => "quantileTimingWeighted"
  | .quantiles => "quantiles"
  | .quantilesBFloat16 => "quantilesBFloat16"
  | .quantilesExact => "quantilesExact"
  | .quantilesTDigest => "quantilesTDigest"
  | .quantilesTiming => "quantilesTiming"
  | .rankCorr => "rankCorr"
  | .retention => "retention"
  | .sequenceCount => "sequenceCount"
  | .sequenceMatch => "sequenceMatch"
  | .simpleLinearRegression => "simpleLinearRegression"
  | .skewPop => "skewPop"
  | .skewSamp => "skewSamp"
  | .stddevPop => "stddevPop"
  | .stddevSamp => "stddevSamp"
  | .stochasticLinearRegression => "stochasticLinearRegression"
  | .stochasticLogisticRegression => "stochasticLogisticRegression"
  | .studentTTest => "studentTTest"
  | .sum => "sum"
  | .sumKahan => "sumKahan"
  | .sumMap => "sumMap"
  | .sumWithOverflow => "sumWithOverflow"
  | .topK => "topK"
  | .topKWeighted => "topKWeighted"
  | .uniq => "uniq"
  | .uniqCombined => "uniqCombined"
  | .uniqCombined64 => "uniqCombined64"
  | .uniqExact => "uniqExact"
  | .uniqHLL12 => "uniqHLL12"
  | .uniqTheta => "uniqTheta"
  | .varPop => "varPop"
  | .varSamp => "varSamp"
  | .welchTTest => "welchTTest"
  | .windowFunnel => "windowFunnel"

def ofName? (name : String) : Option Aggregate := all.find? (·.name == name)

def aliases : List (String × Aggregate) := [
  ("median", .quantile),
  ("medianExact", .quantileExact),
  ("medianTiming", .quantileTiming),
  ("medianTDigest", .quantileTDigest),
  ("medianDeterministic", .quantileDeterministic),
  ("VAR_POP", .varPop),
  ("VAR_SAMP", .varSamp),
  ("STDDEV_POP", .stddevPop),
  ("STDDEV_SAMP", .stddevSamp),
  ("COVAR_POP", .covarPop),
  ("COVAR_SAMP", .covarSamp)]

def spellings : List (Text × Aggregate) :=
  all.map (fun f => (f.name.toList, f)) ++ aliases.map (fun a => (a.1.toList, a.2))

def spelled? (t : Text) : Option Aggregate := spellings.lookup t

/-- The combinators, longer ones before those they end in. -/
def combinators : List Text :=
  ["SimpleState", "MergeState", "OrDefault", "Resample", "Distinct", "ForEach", "OrNull",
   "ArgMax", "ArgMin", "Array", "State", "Merge", "Map", "If"].map String.toList

/-- What stands before the first listed combinator that ends the text; it is never empty. -/
def strip? (t : Text) : List Text → Option Text
  | [] => none
  | c :: cs =>
    if c.length < t.length ∧ c.isSuffixOf t then some (t.take (t.length - c.length)) else strip? t cs

theorem stripShortens {t r : Text} : ∀ {cs : List Text}, (∀ c ∈ cs, c ≠ []) →
    strip? t cs = some r → r.length < t.length
  | [], _, h => by simp [strip?] at h
  | c :: cs, hne, h => by
    unfold strip? at h
    split at h
    next good =>
      cases Option.some.inj h
      have := List.length_pos_iff.mpr (hne c (by simp))
      rw [List.length_take]; omega
    next => exact stripShortens (fun d hd => hne d (by simp [hd])) h

theorem combinatorsNonempty : ∀ c ∈ combinators, c ≠ [] := by decide

/-- The function a name stands for. Combinators are taken off the end, one at a time, until a
known spelling is left. -/
def resolve? (t : Text) : Option Aggregate :=
  match spelled? t with
  | some f => some f
  | none =>
    match _h : strip? t combinators with
    | some r => resolve? r
    | none => none
termination_by t.length
decreasing_by exact stripShortens combinatorsNonempty _h

end Aggregate
end ColumnDecl
