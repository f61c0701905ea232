import ColumnDecl.Aggregate

/-! The names of the aggregate functions letter by letter, for what is checked by evaluation: a string is
decoded before its letters can be compared. -/
namespace ColumnDecl.Aggregate

def letters : Aggregate → Text
  | .any => ['a','n','y']
  | .anyHeavy => ['a','n','y','H','e','a','v','y']
  | .anyLast => ['a','n','y','L','a','s','t']
  | .argMax => ['a','r','g','M','a','x']
  | .argMin => ['a','r','g','M','i','n']
  | .avg => ['a','v','g']
  | .avgWeighted => ['a','v','g','W','e','i','g','h','t','e','d']
  | .boundingRatio => ['b','o','u','n','d','i','n','g','R','a','t','i','o']
  | .categoricalInformationValue => ['c','a','t','e','g','o','r','i','c','a','l',
      'I','n','f','o','r','m','a','t','i','o','n','V','a','l','u','e']
  | .corr => ['c','o','r','r']
  | .count => ['c','o','u','n','t']
  | .covarPop => ['c','o','v','a','r','P','o','p']
  | .covarSamp => ['c','o','v','a','r','S','a','m','p']
  | .deltaSum => ['d','e','l','t','a','S','u','m']
  | .entropy => ['e','n','t','r','o','p','y']
  | .firstValue => ['f','i','r','s','t','_','v','a','l','u','e']
  | .groupArray => ['g','r','o','u','p','A','r','r','a','y']
  | .groupArrayInsertAt => ['g','r','o','u','p','A','r','r','a','y','I','n','s','e','r','t','A','t']
  | .groupArrayMovingAvg => ['g','r','o','u','p','A','r','r','a','y','M','o','v','i','n','g',
      'A','v','g']
  | .groupArrayMovingSum => ['g','r','o','u','p','A','r','r','a','y','M','o','v','i','n','g',
      'S','u','m']
  | .groupArraySample => ['g','r','o','u','p','A','r','r','a','y','S','a','m','p','l','e']
  | .groupBitAnd => ['g','r','o','u','p','B','i','t','A','n','d']
  | .groupBitOr => ['g','r','o','u','p','B','i','t','O','r']
  | .groupBitXor => ['g','r','o','u','p','B','i','t','X','o','r']
  | .groupBitmap => ['g','r','o','u','p','B','i','t','m','a','p']
  | .groupBitmapAnd => ['g','r','o','u','p','B','i','t','m','a','p','A','n','d']
  | .groupBitmapOr => ['g','r','o','u','p','B','i','t','m','a','p','O','r']
  | .groupBitmapXor => ['g','r','o','u','p','B','i','t','m','a','p','X','o','r']
  | .groupUniqArray => ['g','r','o','u','p','U','n','i','q','A','r','r','a','y']
  | .histogram => ['h','i','s','t','o','g','r','a','m']
  | .kurtPop => ['k','u','r','t','P','o','p']
  | .kurtSamp => ['k','u','r','t','S','a','m','p']
  | .lastValue => ['l','a','s','t','_','v','a','l','u','e']
  | .mannWhitneyUTest => ['m','a','n','n','W','h','i','t','n','e','y','U','T','e','s','t']
  | .max => ['m','a','x']
  | .maxMap => ['m','a','x','M','a','p']
  | .min => ['m','i','n']
  | .minMap => ['m','i','n','M','a','p']
  | .quantile => ['q','u','a','n','t','i','l','e']
  | .quantileBFloat16 => ['q','u','a','n','t','i','l','e','B','F','l','o','a','t','1','6']
  | .quantileDeterministic => ['q','u','a','n','t','i','l','e',
      'D','e','t','e','r','m','i','n','i','s','t','i','c']
  | .quantileExact => ['q','u','a','n','t','i','l','e','E','x','a','c','t']
  | .quantileExactHigh => ['q','u','a','n','t','i','l','e','E','x','a','c','t','H','i','g','h']
  | .quantileExactLow => ['q','u','a','n','t','i','l','e','E','x','a','c','t','L','o','w']
  | .quantileExactWeighted => ['q','u','a','n','t','i','l','e','E','x','a','c','t',
      'W','e','i','g','h','t','e','d']
  | .quantileTDigest => ['q','u','a','n','t','i','l','e','T','D','i','g','e','s','t']
  | .quantileTDigestWeighted => ['q','u','a','n','t','i','l','e','T','D','i','g','e','s','t',
      'W','e','i','g','h','t','e','d']
  | .quantileTiming => ['q','u','a','n','t','i','l','e','T','i','m','i','n','g']
  | .quantileTimingWeighted => ['q','u','a','n','t','i','l','e','T','i','m','i','n','g',
      'W','e','i','g','h','t','e','d']
  | .quantiles => ['q','u','a','n','t','i','l','e','s']
  | .quantilesBFloat16 => ['q','u','a','n','t','i','l','e','s','B','F','l','o','a','t','1','6']
  | .quantilesExact => ['q','u','a','n','t','i','l','e','s','E','x','a','c','t']
  | .quantilesTDigest => ['q','u','a','n','t','i','l','e','s','T','D','i','g','e','s','t']
  | .quantilesTiming => ['q','u','a','n','t','i','l','e','s','T','i','m','i','n','g']
  | .rankCorr => ['r','a','n','k','C','o','r','r']
  | .retention => ['r','e','t','e','n','t','i','o','n']
  | .sequenceCount => ['s','e','q','u','e','n','c','e','C','o','u','n','t']
  | .sequenceMatch => ['s','e','q','u','e','n','c','e','M','a','t','c','h']
  | .simpleLinearRegression => ['s','i','m','p','l','e','L','i','n','e','a','r',
      'R','e','g','r','e','s','s','i','o','n']
  | .skewPop => ['s','k','e','w','P','o','p']
  | .skewSamp => ['s','k','e','w','S','a','m','p']
  | .stddevPop => ['s','t','d','d','e','v','P','o','p']
  | .stddevSamp => ['s','t','d','d','e','v','S','a','m','p']
  | .stochasticLinearRegression => ['s','t','o','c','h','a','s','t','i','c','L','i','n','e','a','r',
      'R','e','g','r','e','s','s','i','o','n']
  | .stochasticLogisticRegression => ['s','t','o','c','h','a','s','t','i','c',
      'L','o','g','i','s','t','i','c','R','e','g','r','e','s','s','i','o','n']
  | .studentTTest => ['s','t','u','d','e','n','t','T','T','e','s','t']
  | .sum => ['s','u','m']
  | .sumKahan => ['s','u','m','K','a','h','a','n']
  | .sumMap => ['s','u','m','M','a','p']
  | .sumWithOverflow => ['s','u','m','W','i','t','h','O','v','e','r','f','l','o','w']
  | .topK => ['t','o','p','K']
  | .topKWeighted => ['t','o','p','K','W','e','i','g','h','t','e','d']
  | .uniq => ['u','n','i','q']
  | .uniqCombined => ['u','n','i','q','C','o','m','b','i','n','e','d']
  | .uniqCombined64 => ['u','n','i','q','C','o','m','b','i','n','e','d','6','4']
  | .uniqExact => ['u','n','i','q','E','x','a','c','t']
  | .uniqHLL12 => ['u','n','i','q','H','L','L','1','2']
  | .uniqTheta => ['u','n','i','q','T','h','e','t','a']
  | .varPop => ['v','a','r','P','o','p']
  | .varSamp => ['v','a','r','S','a','m','p']
  | .welchTTest => ['w','e','l','c','h','T','T','e','s','t']
  | .windowFunnel => ['w','i','n','d','o','w','F','u','n','n','e','l']

def aliasLetters : List (Text × Aggregate) := [
  (['m','e','d','i','a','n'],.quantile),
  (['m','e','d','i','a','n','E','x','a','c','t'],.quantileExact),
  (['m','e','d','i','a','n','T','i','m','i','n','g'],.quantileTiming),
  (['m','e','d','i','a','n','T','D','i','g','e','s','t'],.quantileTDigest),
  (['m','e','d','i','a','n',
    'D','e','t','e','r','m','i','n','i','s','t','i','c'],.quantileDeterministic),
  (['V','A','R','_','P','O','P'],.varPop),
  (['V','A','R','_','S','A','M','P'],.varSamp),
  (['S','T','D','D','E','V','_','P','O','P'],.stddevPop),
  (['S','T','D','D','E','V','_','S','A','M','P'],.stddevSamp),
  (['C','O','V','A','R','_','P','O','P'],.covarPop),
  (['C','O','V','A','R','_','S','A','M','P'],.covarSamp)]

def table : List (Text × Aggregate) := all.map (fun f => (letters f,f)) ++ aliasLetters

/- A string is by definition made of its letters, so nothing is decoded here. -/
theorem nameLetters (f : Aggregate) : f.name = String.ofList (letters f) := by cases f <;> rfl

theorem aliasesLetters : aliases = aliasLetters.map fun a => (String.ofList a.1,a.2) := rfl

theorem spellingsTable : spellings = table := by
  simp [spellings,table,nameLetters,aliasesLetters,Function.comp_def]

end ColumnDecl.Aggregate
