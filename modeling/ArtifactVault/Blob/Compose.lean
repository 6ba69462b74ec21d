import ArtifactVault.Blob.Growth
import ArtifactVault.Text.Json

/-!
Building text. The general formatter and the escapers mark the blob, the SQL family never does, and
`sqlText` refuses a marked blob, so text escaped for display cannot pass for SQL. Escaping copies
the stretches between special bytes as they are.
-/
namespace ArtifactVault.Blob

def mark (b : Blob) : Blob := { b with formatted := true }

def writeText (b : Blob) (text : String) : Except Abort Blob := b.mark.append (Utf8.ofString text)

def appendFormatted (b : Blob) (pieces : List String) : Except Abort Blob :=
  pieces.foldlM writeText b

def pieces (replacement? : UInt8 → Option Bytes) (bytes : Bytes) : List Bytes :=
  bytes.foldr (fun byte found =>
    match replacement? byte with
    | some replacement => [] :: replacement :: found
    | none =>
      match found with
      | [] => [[byte]]
      | stretch :: found => (byte :: stretch) :: found) [[]]

def htmlEntity? (byte : UInt8) : Option Bytes :=
  if byte = 0x26 then some (Bytes.ascii ['&', 'a', 'm', 'p', ';'])
  else if byte = 0x3c then some (Bytes.ascii ['&', 'l', 't', ';'])
  else if byte = 0x3e then some (Bytes.ascii ['&', 'g', 't', ';'])
  else if byte = 0x22 then some (Bytes.ascii ['&', 'q', 'u', 'o', 't', ';'])
  else if byte = 0x27 then some (Bytes.ascii ['&', '#', '3', '9', ';'])
  else none

def appendHtml (b : Blob) (text : String) : Except Abort Blob :=
  (pieces htmlEntity? (Utf8.ofString text)).foldlM append b.mark

def appendJson (b : Blob) (text : String) : Except Abort Blob :=
  b.mark.append (Utf8.encode (Json.quoteChars text.toList))

def appendSql (b : Blob) (sql : String) : Except Abort Blob := b.append (Utf8.ofString sql)

def doubled (special byte : UInt8) : Option Bytes :=
  if byte = special then some [special, special] else none

def appendDoubling (b : Blob) (special : UInt8) (text : String) : Except Abort Blob :=
  (pieces (doubled special) (Utf8.ofString text)).foldlM append b

def appendSqlEscaped (b : Blob) (text : String) : Except Abort Blob := b.appendDoubling 0x27 text

def appendSqlString (b : Blob) : Option String → Except Abort Blob
  | some text => do ((← (← b.appendByte 0x27).appendSqlEscaped text)).appendByte 0x27
  | none => b.append (Bytes.ascii ['N', 'U', 'L', 'L'])

def appendSqlIdentifier (b : Blob) (name : String) : Except Abort Blob := do
  ((← (← b.appendByte 0x22).appendDoubling 0x22 name)).appendByte 0x22

def appendSqlInt (b : Blob) (value : Int64) : Except Abort Blob :=
  b.append (Utf8.ofString (toString value.toInt))

def sqlText (b : Blob) : Except Abort String :=
  if b.formatted then .error .formattedSql
  else match Utf8.decode b.content with
    | .ok cs => .ok (String.ofList cs)
    | .error fault => .error (.illFormedSql fault)

end ArtifactVault.Blob
