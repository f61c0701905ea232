/-! The formats in which data is sent, by their names on the wire, and what each can do. -/
namespace ColumnDecl

inductive WireFormat where
  | rowBinary | rowBinaryWithNamesAndTypes | tabSeparated | tabSeparatedRaw
  | tabSeparatedWithNames | tabSeparatedWithNamesAndTypes | arrow | arrowStream | avro
  | avroConfluent | csv | csvWithNames | capnProto | customSeparated
  | customSeparatedIgnoreSpaces | jsonCompactEachRow | jsonCompactEachRowWithNamesAndTypes
  | json | jsonAsString | jsonCompact | jsonCompactStringsEachRow
  | jsonCompactStringsEachRowWithNamesAndTypes | jsonCompactStrings | jsonEachRow
  | jsonEachRowWithProgress | jsonStringsEachRow | jsonStringsEachRowWithProgress
  | jsonStringEachRow | jsonStrings | lineAsString | markdown | msgPack | mysqlWire | native
  | null | odbcDriver2 | orc | parquet | postgresqlWire | pretty | prettyCompact
  | prettyCompactMonoBlock | prettyCompactNoEscapes | prettyNoEscapes | prettySpace
  | prettySpaceNoEscapes | protobuf | protobufSingle | rawBLOB | regexp | tskv | tsv | tsvRaw
  | tsvWithNames | tsvWithNamesAndTypes | template | templateIgnoreSpaces | values | vertical
  | xml
  deriving DecidableEq, Repr

namespace WireFormat

def all : List WireFormat := [
  .rowBinary, .rowBinaryWithNamesAndTypes, .tabSeparated, .tabSeparatedRaw,
  .tabSeparatedWithNames, .tabSeparatedWithNamesAndTypes, .arrow, .arrowStream, .avro,
  .avroConfluent, .csv, .csvWithNames, .capnProto, .customSeparated,
  .customSeparatedIgnoreSpaces, .jsonCompactEachRow, .jsonCompactEachRowWithNamesAndTypes, .json,
  .jsonAsString, .jsonCompact, .jsonCompactStringsEachRow,
  .jsonCompactStringsEachRowWithNamesAndTypes, .jsonCompactStrings, .jsonEachRow,
  .jsonEachRowWithProgress, .jsonStringsEachRow, .jsonStringsEachRowWithProgress,
  .jsonStringEachRow, .jsonStrings, .lineAsString, .markdown, .msgPack, .mysqlWire, .native,
  .null, .odbcDriver2, .orc, .parquet, .postgresqlWire, .pretty, .prettyCompact,
  .prettyCompactMonoBlock, .prettyCompactNoEscapes, .prettyNoEscapes, .prettySpace,
  .prettySpaceNoEscapes, .protobuf, .protobufSingle, .rawBLOB, .regexp, .tskv, .tsv, .tsvRaw,
  .tsvWithNames, .tsvWithNamesAndTypes, .template, .templateIgnoreSpaces, .values, .vertical,
  .xml]

def name : WireFormat → String
  | .rowBinary => "RowBinary"
  | .rowBinaryWithNamesAndTypes => "RowBinaryWithNamesAndTypes"
  | .tabSeparated => "TabSeparated"
  | .tabSeparatedRaw => "TabSeparatedRaw"
  | .tabSeparatedWithNames => "TabSeparatedWithNames"
  | .tabSeparatedWithNamesAndTypes => "TabSeparatedWithNamesAndTypes"
  | .arrow => "Arrow"
  | .arrowStream => "ArrowStream"
  | .avro => "Avro"
  | .avroConfluent => "AvroConfluent"
  | .csv => "CSV"
  | .csvWithNames => "CSVWithNames"
  | .capnProto => "CapnProto"
  | .customSeparated => "CustomSeparated"
  | .customSeparatedIgnoreSpaces => "CustomSeparatedIgnoreSpaces"
  | .jsonCompactEachRow => "JSONCompactEachRow"
  | .jsonCompactEachRowWithNamesAndTypes => "JSONCompactEachRowWithNamesAndTypes"
  | .json => "JSON"
  | .jsonAsString => "JSONAsString"
  | .jsonCompact => "JSONCompact"
  | .jsonCompactStringsEachRow => "JSONCompactStringsEachRow"
  | .jsonCompactStringsEachRowWithNamesAndTypes => "JSONCompactStringsEachRowWithNamesAndTypes"
  | .jsonCompactStrings => "JSONCompactStrings"
  | .jsonEachRow => "JSONEachRow"
  | .jsonEachRowWithProgress => "JSONEachRowWithProgress"
  | .jsonStringsEachRow => "JSONStringsEachRow"
  | .jsonStringsEachRowWithProgress => "JSONStringsEachRowWithProgress"
  | .jsonStringEachRow => "JSONStringEachRow"
  | .jsonStrings => "JSONStrings"
  | .lineAsString => "LineAsString"
  | .markdown => "Markdown"
  | .msgPack => "MsgPack"
  | .mysqlWire => "MySQLWire"
  | .native => "Native"
  | .null => "Null"
  | .odbcDriver2 => "ODBCDriver2"
  | .orc => "ORC"
  | .parquet => "Parquet"
  | .postgresqlWire => "PostgreSQLWire"
  | .pretty => "Pretty"
  | .prettyCompact => "PrettyCompact"
  | .prettyCompactMonoBlock => "PrettyCompactMonoBlock"
  | .prettyCompactNoEscapes => "PrettyCompactNoEscapes"
  | .prettyNoEscapes => "PrettyNoEscapes"
  | .prettySpace => "PrettySpace"
  | .prettySpaceNoEscapes => "PrettySpaceNoEscapes"
  | .protobuf => "Protobuf"
  | .protobufSingle => "ProtobufSingle"
  | .rawBLOB => "RawBLOB"
  | .regexp => "Regexp"
  | .tskv => "TSKV"
  | .tsv => "TSV"
  | .tsvRaw => "TSVRaw"
  | .tsvWithNames => "TSVWithNames"
  | .tsvWithNamesAndTypes => "TSVWithNamesAndTypes"
  | .template => "Template"
  | .templateIgnoreSpaces => "TemplateIgnoreSpaces"
  | .values => "Values"
  | .vertical => "Vertical"
  | .xml => "XML"

def ofName? (name : String) : Option WireFormat := all.find? (·.name == name)

def unknown (name : String) : String := s!"Unknown format '{name}'"

/-- What a format can do: be read, be written, hold bytes rather than text, begin with names or
types, and be taken row by row. -/
structure Traits where
  input : Bool
  output : Bool
  binary : Bool
  header : Bool
  rows : Bool
  deriving DecidableEq, Repr

def traits : WireFormat → Traits
  | .rowBinary =>
    ⟨true, true, true, false, true⟩
  | .rowBinaryWithNamesAndTypes =>
    ⟨true, true, true, true, true⟩
  | .tabSeparated | .tabSeparatedRaw | .csv | .customSeparated
  | .customSeparatedIgnoreSpaces | .jsonCompactEachRow | .jsonCompactStringsEachRow
  | .jsonEachRow | .jsonStringsEachRow | .tsv | .tsvRaw | .values =>
    ⟨true, true, false, false, true⟩
  | .tabSeparatedWithNames | .tabSeparatedWithNamesAndTypes | .csvWithNames
  | .jsonCompactEachRowWithNamesAndTypes | .jsonCompactStringsEachRowWithNamesAndTypes
  | .tsvWithNames | .tsvWithNamesAndTypes | .template =>
    ⟨true, true, false, true, true⟩
  | .arrow | .arrowStream | .avro | .native | .parquet | .protobuf | .protobufSingle =>
    ⟨true, true, true, true, false⟩
  | .avroConfluent | .capnProto =>
    ⟨true, false, true, false, false⟩
  | .json | .jsonCompact | .jsonCompactStrings | .jsonStrings | .null | .pretty
  | .prettyCompact | .prettyCompactMonoBlock | .prettyCompactNoEscapes
  | .prettyNoEscapes | .prettySpace | .prettySpaceNoEscapes | .vertical | .xml =>
    ⟨false, true, false, false, false⟩
  | .jsonAsString | .regexp =>
    ⟨true, false, false, false, false⟩
  | .jsonEachRowWithProgress | .jsonStringsEachRowWithProgress | .markdown =>
    ⟨false, true, false, false, true⟩
  | .jsonStringEachRow =>
    ⟨false, false, false, false, true⟩
  | .lineAsString =>
    ⟨true, false, false, false, true⟩
  | .msgPack | .rawBLOB =>
    ⟨true, true, true, false, false⟩
  | .mysqlWire | .odbcDriver2 | .postgresqlWire =>
    ⟨false, true, true, false, false⟩
  | .orc =>
    ⟨true, false, true, true, false⟩
  | .tskv =>
    ⟨true, true, false, false, false⟩
  | .templateIgnoreSpaces =>
    ⟨true, false, false, true, true⟩

def isText (f : WireFormat) : Bool := !f.traits.binary

/-- A header only shows in what is written. -/
def hasHeader (f : WireFormat) : Bool := f.traits.output && f.traits.header

/-- The format without a header, where one is sent in the place of another. -/
def withoutHeader? : WireFormat → Option WireFormat
  | .rowBinaryWithNamesAndTypes => some .rowBinary
  | .tabSeparatedWithNames | .tabSeparatedWithNamesAndTypes => some .tabSeparated
  | .csvWithNames => some .csv
  | .json | .jsonCompact => some .jsonCompactEachRow
  | .jsonCompactStringsEachRowWithNamesAndTypes | .jsonCompactStrings => some .jsonCompactStringsEachRow
  | .jsonEachRowWithProgress => some .jsonEachRow
  | .jsonStringsEachRowWithProgress | .jsonStringEachRow | .jsonStrings => some .jsonStringsEachRow
  | .tsvWithNames | .tsvWithNamesAndTypes => some .tsv
  | _ => none

def defaultInput (f : WireFormat) : WireFormat :=
  match f.withoutHeader? with
  | some g => g
  | none =>
    if f.traits.input then f else if f.traits.binary then .rowBinary else .tabSeparated

def yesNo (b : Bool) : String := if b then "yes" else "no"

def outline (f : WireFormat) : List String := [
  s!"{f.name}:",
  s!"  input: {yesNo f.traits.input}",
  s!"  output: {yesNo f.traits.output}",
  s!"  binary: {yesNo f.traits.binary}",
  s!"  header: {yesNo f.hasHeader}",
  s!"  row based: {yesNo f.traits.rows}",
  s!"  default input: {f.defaultInput.name}"]

end WireFormat
end ColumnDecl
