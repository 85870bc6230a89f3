/-! # Why settings cannot be loaded -/

namespace NodeDecl

inductive SettingsFault where
  /-- A value of a kind that is no text, where a text is expected. -/
  | notText (found key : String) (origin? : Option String)
  /-- A value of another kind than expected. -/
  | mismatch (found expected : String)
  | unknownTarget (name : String)
  | targetShape
  | missingFile (name : String)
  | unreadableFile
  /-- A file that is not well formed. -/
  | badDocument (file : String)
  /-- A file that holds something else than a table. -/
  | noTable (found file : String)
deriving DecidableEq

def SettingsFault.message : SettingsFault → String
  | notText found key origin? =>
    "invalid type: " ++ found ++ ", expected a string for key `" ++ key ++ "`" ++
      match origin? with
      | some origin => " in " ++ origin
      | none => ""
  | mismatch found expected => "invalid type: " ++ found ++ ", expected " ++ expected
  | unknownTarget name => "enum Target does not have variant constructor " ++ name
  | targetShape => "value of enum Target should be represented by either string or table with " ++
      "exactly one key"
  | missingFile name => "configuration file \"" ++ name ++ "\" not found"
  | unreadableFile => "stream did not contain valid UTF-8"
  | badDocument _ => "TOML parse error"
  | noTable found file =>
    "invalid type: " ++ found ++ ", expected a map in " ++ file ++ " in " ++ file

end NodeDecl
