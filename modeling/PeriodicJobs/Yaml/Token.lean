import PeriodicJobs.Yaml.Token.Tag

set_option autoImplicit false

/- The tokens of YAML documents that hold one mapping of scalars to scalars. -/
namespace PeriodicJobs.Yaml

inductive Style where
  | plain
  | quoted
  | literal
  | folded
deriving DecidableEq

/-- A token. A mapping in block style starts and ends where its indentation does; every key is
announced, with or without a question mark in the text. -/
inductive Token where
  | version (major minor : Nat)
  | handle (name : String) (stem : List UInt8)
  | documentStart
  | documentEnd
  | mappingStart
  | mappingEnd
  | braceOpen
  | braceClose
  | comma
  | key
  | value
  | anchor (name : String)
  | reference (name : String)
  | tag (tag : WrittenTag)
  | scalar (style : Style) (text : String)
deriving DecidableEq

end PeriodicJobs.Yaml
