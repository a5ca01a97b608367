import QuantForge.Protocol.Bundle.Problems

namespace QuantForge.Bundle

/-- The refusals of a manifest's values, with the text each one refuses. -/
inductive ProtocolError
  | invalidEngineVersion (input : String)
  | invalidEngineRequirement (input : String) (reason : Message)
  | invalidPythonVersion (input : String)
  | invalidPackageName (input : String) (reason : Message)
  | invalidPackageVersion (input : String)
  | invalidEntry (input : String) (reason : Message)
  deriving DecidableEq

def ProtocolError.message : ProtocolError → Message
  | .invalidEngineVersion input =>
    [.text "invalid engine version ", .quoted input,
      .text ": expected MAJOR.MINOR.PATCH, such as \"0.3.0\""]
  | .invalidEngineRequirement input reason =>
    [.text "invalid engine requirement ", .quoted input, .text ": "] ++ reason ++
      [.text ("; write comparators on MAJOR.MINOR.PATCH versions, such as " ++
        "\">=0.3.0, <0.4.0\"")]
  | .invalidPythonVersion input =>
    [.text "invalid python version ", .quoted input,
      .text ": expected MAJOR.MINOR, such as \"3.12\""]
  | .invalidPackageName input reason =>
    [.text "invalid package name ", .quoted input, .text ": "] ++ reason
  | .invalidPackageVersion input =>
    [.text "invalid package version ", .quoted input,
      .text (": expected a canonical version such as \"2.1.3\", " ++
        "\"1.0rc1\", or \"2.0.post1\"")]
  | .invalidEntry input reason => [.text "invalid entry ", .quoted input, .text ": "] ++ reason

end QuantForge.Bundle
