import ContentType.Config.Codec
import ContentType.Json.Parser
import ContentType.LoadError
import ContentType.Text.Utf8

namespace ContentType.Config

def parse (temporary : Path) (text : String) : Except LoadError Config :=
  match (Json.parse? text).bind (ofJson? temporary) with
  | some c => .ok c
  | none => .error .config

/-- A settings file is all read and has to be text. -/
def load (temporary : Path) (fs : FileSystem) (path : Path) : Except LoadError Config :=
  match (fs.openFile path).bind (fun f => f.readToEnd) with
  | .error e => .error (.file e)
  | .ok s =>
    match Utf8.decode? s with
    | none => .error (.file .notText)
    | some text => parse temporary text

end ContentType.Config
