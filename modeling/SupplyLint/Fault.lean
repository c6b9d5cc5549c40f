import SupplyLint.Calendar
import SupplyLint.Text.Code
import SupplyLint.Text.Quoted
import SupplyLint.Text.Utf8

/-! Faults: what a value refuses because of its kind or its content. A fault has a category and a
message; both are shown to the user where a check could not be evaluated, so their words are
fixed. -/
set_option autoImplicit false

namespace SupplyLint

open SupplyLint.Text

inductive Fault
  | notSearchable (kind : String)
  | bytesSearched
  | bytesPattern
  | noMembers (kind : String)
  | bytesMembers
  | notIterable (kind : String)
  | unhashable (kind : String)
  | noAttribute (kind name : String)
  | bytesPrefix
  | notPath (kind : String)
  | notJoinable (index : Nat) (kind : String)
  | unknownOption (name : String)
  | notWritable (kind : String)
  | keyNotWritable (kind : String)
  | notPackage (text : String)
  | noPackageName
  | unknownHost (host : String)
  | notSlug (text : String)
  | badInteger (base : Nat) (text : String)
  | longInteger (limit count : Nat)
  | longText (limit : Nat)
  | badFloat (text : String)
  | emptyNumber
  | floatOverflow
  | calendar (fault : CalendarFault)
  | characterRange
  | characterOverflow
  | missingKey (key : String)
  | undecodable (error : Utf8Error)
  | unencodable (run : SurrogateRun)
  | nullInPath
  | nameTooLong (path : String)
  | circular
  | endless
  | other (category message : String)

inductive FaultCategory
  | type
  | value
  | attribute
  | key
  | index
  | overflow
  | decoding
  | encoding
  | system
  | recursion
  | named (name : String)
  deriving DecidableEq

def Fault.category : Fault → FaultCategory
  | .notSearchable _ | .bytesSearched | .bytesPattern | .noMembers _ | .bytesMembers
  | .notIterable _ | .unhashable _ | .bytesPrefix | .notPath _ | .notJoinable _ _ | .unknownOption _
  | .notWritable _ | .keyNotWritable _ => .type
  | .notPackage _ | .noPackageName | .unknownHost _ | .notSlug _ | .badInteger
      _ _ | .longInteger _ _
  | .longText _ | .badFloat _ | .calendar _ | .characterRange | .nullInPath
  | .circular => .value
  | .noAttribute _ _ => .attribute
  | .missingKey _ => .key
  | .emptyNumber => .index
  | .characterOverflow | .floatOverflow => .overflow
  | .undecodable _ => .decoding
  | .unencodable _ => .encoding
  | .nameTooLong _ => .system
  | .endless => .recursion
  | .other category _ => .named category

def FaultCategory.text : FaultCategory → String
  | .type => "TypeError"
  | .value => "ValueError"
  | .attribute => "AttributeError"
  | .key => "KeyError"
  | .index => "IndexError"
  | .overflow => "OverflowError"
  | .decoding => "UnicodeDecodeError"
  | .encoding => "UnicodeEncodeError"
  | .system => "OSError"
  | .recursion => "RecursionError"
  | .named name => name

def undecodableText (error : Utf8Error) : String :=
  let last := error.position + error.bytes.length - 1
  let place := match error.bytes with
    | [byte] =>
      "byte 0x" ++ String.ofList (hexDigits 2 byte.toNat) ++ " in position " ++
        toString error.position
    | _ => "bytes in position " ++ toString error.position ++ "-" ++ toString last
  "'utf-8' codec can't decode " ++ place ++ ": " ++ error.fault.message

def unencodableText (run : SurrogateRun) : String :=
  let place :=
    if run.first = run.last then
      "character '" ++ String.ofList (escapeCode run.number) ++
        "' in position " ++ toString run.first
    else "characters in position " ++ toString run.first ++ "-" ++ toString run.last
  "'utf-8' codec can't encode " ++ place ++ ": surrogates not allowed"

def Fault.message : Fault → String
  | .notSearchable kind => "expected string or bytes-like object, got '" ++ kind ++ "'"
  | .bytesSearched => "cannot use a string pattern on a bytes-like object"
  | .bytesPattern => "cannot use a bytes pattern on a string-like object"
  | .noMembers kind => "argument of type '" ++ kind ++ "' is not iterable"
  | .bytesMembers => "a bytes-like object is required, not 'str'"
  | .notIterable kind => "'" ++ kind ++ "' object is not iterable"
  | .unhashable kind => "unhashable type: '" ++ kind ++ "'"
  | .noAttribute kind name => "'" ++ kind ++ "' object has no attribute '" ++ name ++ "'"
  | .bytesPrefix => "startswith first arg must be bytes or a tuple of bytes, not str"
  | .notPath kind => "expected str, bytes or os.PathLike object, not " ++ kind
  | .notJoinable index kind =>
    "sequence item " ++ toString index ++ ": expected str instance, " ++ kind ++ " found"
  | .unknownOption name => "Config.__init__() got an unexpected keyword argument '" ++ name ++ "'"
  | .notWritable kind => "Object of type " ++ kind ++ " is not JSON serializable"
  | .keyNotWritable kind => "keys must be str, int, float, bool or None, not " ++ kind
  | .notPackage text => "Not a package reference: " ++ quoted text
  | .noPackageName => "not enough values to unpack (expected 2, got 1)"
  | .unknownHost host => "Unknown SCM '" ++ host ++ "'. Valid: github, gitlab"
  | .notSlug text => "Expected '<org>/<repo>' or a clone URL, got '" ++ text ++ "'"
  | .badInteger base text =>
    "invalid literal for int() with base " ++ toString base ++ ": " ++
      String.ofList ((quoted text).toList.take 200)
  | .longInteger limit count =>
    "Exceeds the limit (" ++ toString limit ++
      " digits) for integer string conversion: value has " ++
      toString count ++ " digits; use sys.set_int_max_str_digits() to increase the limit"
  | .longText limit =>
    "Exceeds the limit (" ++ toString limit ++ " digits) for integer string conversion; " ++
      "use sys.set_int_max_str_digits() to increase the limit"
  | .badFloat text => "could not convert string to float: " ++ quoted text
  | .emptyNumber => "string index out of range"
  | .floatOverflow => "int too large to convert to float"
  | .calendar fault => fault.message
  | .characterRange => "chr() arg not in range(0x110000)"
  | .characterOverflow => "Python int too large to convert to C int"
  | .missingKey key => key
  | .undecodable error => undecodableText error
  | .unencodable run => unencodableText run
  | .nullInPath => "embedded null byte"
  | .nameTooLong path => "[Errno 36] File name too long: " ++ quoted path
  | .circular => "Circular reference detected"
  | .endless => "maximum recursion depth exceeded"
  | .other _ message => message

end SupplyLint
