import ColumnDecl.Text

/-! The kinds of data a column can hold: the name of each, how it takes a parameter list,
how many bytes a value takes when that is fixed, and its other spellings. -/
namespace ColumnDecl

inductive Kind where
  | bool | int8 | uint8 | int16 | uint16 | int32 | uint32 | int64 | uint64 | int128 | uint128
  | int256 | uint256 | float32 | float64 | decimal | decimal32 | decimal64 | decimal128
  | decimal256 | date | date32 | dateTime | dateTime32 | dateTime64 | intervalSecond
  | intervalMinute | intervalHour | intervalDay | intervalWeek | intervalMonth
  | intervalQuarter | intervalYear | uuid | ipv4 | ipv6 | string | fixedString | json | point
  | ring | polygon | multiPolygon | nothing | enum | enum8 | enum16 | array | tuple | map
  | nested | nullable | lowCardinality | aggregateFunction | simpleAggregateFunction
  deriving DecidableEq, Repr

/-- What may follow the name of a kind in parentheses. -/
inductive Shape where
  | bare | optional | required | nested
  deriving DecidableEq, Repr

namespace Kind

def all : List Kind := [
  .bool, .int8, .uint8, .int16, .uint16, .int32, .uint32, .int64, .uint64, .int128, .uint128,
  .int256, .uint256, .float32, .float64, .decimal, .decimal32, .decimal64, .decimal128,
  .decimal256, .date, .date32, .dateTime, .dateTime32, .dateTime64, .intervalSecond,
  .intervalMinute, .intervalHour, .intervalDay, .intervalWeek, .intervalMonth, .intervalQuarter,
  .intervalYear, .uuid, .ipv4, .ipv6, .string, .fixedString, .json, .point, .ring, .polygon,
  .multiPolygon, .nothing, .enum, .enum8, .enum16, .array, .tuple, .map, .nested, .nullable,
  .lowCardinality, .aggregateFunction, .simpleAggregateFunction]

def name : Kind → String
  | .bool => "Bool"
  | .int8 => "Int8"
  | .uint8 => "UInt8"
  | .int16 => "Int16"
  | .uint16 => "UInt16"
  | .int32 => "Int32"
  | .uint32 => "UInt32"
  | .int64 => "Int64"
  | .uint64 => "UInt64"
  | .int128 => "Int128"
  | .uint128 => "UInt128"
  | .int256 => "Int256"
  | .uint256 => "UInt256"
  | .float32 => "Float32"
  | .float64 => "Float64"
  | .decimal => "Decimal"
  | .decimal32 => "Decimal32"
  | .decimal64 => "Decimal64"
  | .decimal128 => "Decimal128"
  | .decimal256 => "Decimal256"
  | .date => "Date"
  | .date32 => "Date32"
  | .dateTime => "DateTime"
  | .dateTime32 => "DateTime32"
  | .dateTime64 => "DateTime64"
  | .intervalSecond => "IntervalSecond"
  | .intervalMinute => "IntervalMinute"
  | .intervalHour => "IntervalHour"
  | .intervalDay => "IntervalDay"
  | .intervalWeek => "IntervalWeek"
  | .intervalMonth => "IntervalMonth"
  | .intervalQuarter => "IntervalQuarter"
  | .intervalYear => "IntervalYear"
  | .uuid => "UUID"
  | .ipv4 => "IPv4"
  | .ipv6 => "IPv6"
  | .string => "String"
  | .fixedString => "FixedString"
  | .json => "JSON"
  | .point => "Point"
  | .ring => "Ring"
  | .polygon => "Polygon"
  | .multiPolygon => "MultiPolygon"
  | .nothing => "Nothing"
  | .enum => "Enum"
  | .enum8 => "Enum8"
  | .enum16 => "Enum16"
  | .array => "Array"
  | .tuple => "Tuple"
  | .map => "Map"
  | .nested => "Nested"
  | .nullable => "Nullable"
  | .lowCardinality => "LowCardinality"
  | .aggregateFunction => "AggregateFunction"
  | .simpleAggregateFunction => "SimpleAggregateFunction"

def ofName? (name : String) : Option Kind := all.find? (·.name == name)

def shape : Kind → Shape
  | .dateTime | .dateTime32 => .optional
  | .decimal | .decimal32 | .decimal64 | .decimal128 | .decimal256 | .dateTime64
  | .fixedString | .enum | .enum8 | .enum16 => .required
  | .array | .tuple | .map | .nested | .nullable | .lowCardinality | .aggregateFunction
  | .simpleAggregateFunction => .nested
  | _ => .bare

/-- Bytes of one value; zero when parameters or contents decide. -/
def width : Kind → Nat
  | .bool | .int8 | .uint8 | .enum8 => 1
  | .int16 | .uint16 | .date | .enum16 => 2
  | .int32 | .uint32 | .float32 | .decimal32 | .date32 | .dateTime | .dateTime32 | .ipv4 => 4
  | .int64 | .uint64 | .float64 | .decimal64 | .dateTime64 | .intervalSecond
  | .intervalMinute | .intervalHour | .intervalDay | .intervalWeek | .intervalMonth
  | .intervalQuarter | .intervalYear => 8
  | .int128 | .uint128 | .decimal128 | .uuid | .ipv6 => 16
  | .int256 | .uint256 | .decimal256 => 32
  | _ => 0

/-- The other keywords of a kind, in the order in which they are entered. -/
def aliases : Kind → List String
  | .bool => ["BOOLEAN"]
  | .int8 => ["BYTE", "INT1", "INT1 SIGNED", "TINYINT", "TINYINT SIGNED"]
  | .uint8 => ["INT1 UNSIGNED", "TINYINT UNSIGNED"]
  | .int16 => ["SMALLINT", "SMALLINT SIGNED"]
  | .uint16 => ["SMALLINT UNSIGNED", "YEAR"]
  | .int32 => ["INT", "INTEGER", "MEDIUMINT", "INT SIGNED", "INTEGER SIGNED", "MEDIUMINT SIGNED"]
  | .uint32 => ["INT UNSIGNED", "INTEGER UNSIGNED", "MEDIUMINT UNSIGNED"]
  | .int64 => ["BIGINT", "SIGNED", "BIGINT SIGNED"]
  | .uint64 => ["BIGINT UNSIGNED", "UNSIGNED"]
  | .float32 => ["FLOAT", "REAL", "SINGLE"]
  | .float64 => ["DOUBLE", "DOUBLE PRECISION"]
  | .decimal => ["DEC", "NUMERIC", "FIXED"]
  | .dateTime => ["TIMESTAMP"]
  | .ipv4 => ["INET4"]
  | .ipv6 => ["INET6"]
  | .string => [
      "BINARY LARGE OBJECT", "BINARY VARYING", "BLOB", "BYTEA", "CHAR", "CHAR LARGE OBJECT",
      "CHAR VARYING", "CHARACTER", "CHARACTER LARGE OBJECT", "CHARACTER VARYING", "CLOB",
      "LONGBLOB", "LONGTEXT", "MEDIUMBLOB", "MEDIUMTEXT", "NATIONAL CHAR",
      "NATIONAL CHAR VARYING", "NATIONAL CHARACTER", "NATIONAL CHARACTER LARGE OBJECT",
      "NATIONAL CHARACTER VARYING", "NCHAR", "NCHAR LARGE OBJECT", "NCHAR VARYING", "NVARCHAR",
      "TEXT", "TINYBLOB", "TINYTEXT", "VARCHAR", "VARCHAR2"]
  | .fixedString => ["BINARY"]
  | _ => []

def isComposite (k : Kind) : Bool := k.shape == .required || k.shape == .nested

def isWrapper (k : Kind) : Bool := k == .nullable || k == .lowCardinality

def isEnum (k : Kind) : Bool := k == .enum || k == .enum8 || k == .enum16

def isAggregate (k : Kind) : Bool := k == .aggregateFunction || k == .simpleAggregateFunction

/-- The width in bits of an enum's codes; the unsized enum has none before its codes are known. -/
def enumBits? : Kind → Option Nat
  | .enum8 => some 8
  | .enum16 => some 16
  | _ => none

def noEnumBits (k : Kind) : String := s!"'{k.name}' is not a fixed-width enum type"

def sizedPrecision? : Kind → Option Nat
  | .decimal32 => some 9
  | .decimal64 => some 18
  | .decimal128 => some 38
  | .decimal256 => some 76
  | _ => none

/-- Only fields of a tuple and of a nested table carry names. -/
def namesItsParts (k : Kind) : Bool := k == .tuple || k == .nested

end Kind

namespace Shape

def name : Shape → String
  | .bare => "none"
  | .optional => "optional"
  | .required => "required"
  | .nested => "nested"

end Shape
end ColumnDecl
