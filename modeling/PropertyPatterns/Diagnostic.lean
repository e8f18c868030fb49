namespace PropertyPatterns

structure Diagnostic where
  message : String
  code : String
  help : Option String
  /-- The error is a type tag that the catalogue does not know, rather than a bad value. -/
  unknownTag : Bool
deriving DecidableEq

end PropertyPatterns
