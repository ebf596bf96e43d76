import Roster.Command.Startup
import Roster.Http.Admin
import Roster.Http.Api
import Roster.Read.Table
import Roster.Storage.Codec
import Std.Time.DateTime.Timestamp

/-!
# The command line

Brings the real disk and the time of day to `Command.run` and carries back what it changes. A
process that serves takes its requests from standard input, one in a line: the listener, `query` or
`admin`, the method, the target, and if it is known the address of the client.
-/

namespace Roster

/-- A place as the system names it. -/
def pathText (p : Place) : String :=
  "/" ++ "/".intercalate p

/-- Puts a file into the disk as it stands in the system, read by `node`. -/
def takeFile (node : ByteArray → Node) (d : Disk) (p : Place) : IO Disk := do
  try
    let octets ← IO.FS.readBinFile (pathText p)
    pure (d.set p (node octets))
  catch _ => pure d

/-- Puts the folders down to a place into the disk as they stand in the system. -/
def takeFolders (d : Disk) (p : Place) : IO Disk :=
  (List.range p.length).foldlM (fun d i => do
    let above := p.take (i + 1)
    try
      let path ← IO.FS.realPath (pathText above)
      pure (d.set above (if ← path.isDir then .folder else .other))
    catch _ => pure d) d

/-- Puts a folder of records into the disk as it stands in the system. -/
def takeRecords (d : Disk) (folder : Place) : IO Disk := do
  let d ← takeFolders d folder
  try
    let path ← IO.FS.realPath (pathText folder)
    (← path.readDir).foldlM (fun d entry => takeFile Codec.nodeOf d (folder ++ [entry.fileName])) d
  catch _ => pure d

/-- Brings a folder of records in the system to what it is in the disk. -/
def leaveRecords (before after : Disk) (folder : Place) : IO Unit := do
  if after.node? folder matches some .folder then
    IO.FS.createDirAll (pathText folder)
  for (p, _) in before.nodes do
    if (Disk.nameIn folder p).isSome && (after.node? p).isNone then
      IO.FS.removeFile (pathText p)
  for (p, n) in after.nodes do
    match n with
    | .record key value =>
      if (Disk.nameIn folder p).isSome && !(before.node? p).any (·.holds key value) then
        IO.FS.writeBinFile (pathText p) (Codec.encode key value)
    | _ => pure ()

/-- The text of a configuration file, put into the disk. -/
def takeConfig (d : Disk) (p : Place) : IO Disk :=
  takeFile (fun octets =>
    match String.fromUTF8? octets with
    | some text => .text text
    | none => .other) d p

/-- The time that the system shows. -/
def timeOfDay : IO Instant := do
  let t ← Std.Time.Timestamp.now
  pure ⟨t.toNanosecondsSinceUnixEpoch.toInt⟩

/-! ## Serving -/

/-- The answer to a request in one line, and the server after it. -/
def answerLine (server : Command.Server) (now : Instant) (line : String) :
    String × Command.Server :=
  match (line.trimAscii.toString.splitOn " ") with
  | "admin" :: method :: target :: _ =>
    let (status, body) := Http.adminAnswer server.ready method target
    (toString status ++ " " ++ body.trimAscii.toString, server)
  | "query" :: method :: target :: rest =>
    match Http.Message.make? method target [] rest.head? with
    | none => ("400", server)
    | some m =>
      let ((reply, assembler), table) :=
        Http.answer RateTable.access server.assembler m now now server.table
      let body :=
        match reply.body with
        | .text content => content
        | .json content => Json.write content
      (toString reply.status ++ " " ++ body, { server with assembler, table })
  | _ => ("400", server)

/-- Answers requests as long as there are some. -/
partial def serveLines (input output : IO.FS.Stream) (server : Command.Server) : IO Unit := do
  let line ← input.getLine
  if line.isEmpty then return
  let (answer, server) := answerLine server (← timeOfDay) line
  output.putStrLn answer
  output.flush
  serveLines input output server

/-! ## The process -/

/-- What the process finds in the system, and the folder of records that is part of it. -/
def surroundings (arguments : List String) : IO (Command.Surroundings × Option Place) := do
  let home ← IO.FS.realPath "."
  let workingFolder := Place.resolve [] home.toString
  let mut disk : Disk := {}
  disk ← takeFolders disk workingFolder
  let now ← timeOfDay
  let seed ← IO.rand 0 (UInt32.size - 1)
  let mut folder := none
  let s : Command.Surroundings :=
    { disk, workingFolder
      exchange := fun url _ => .lost ("error sending request for url (" ++ url ++ ")")
      time := now.seconds.toNat, math := .platform, dice := .ofSeed seed.toUInt64 }
  if let .run path _ := Command.read arguments then
    let place := workingFolder.resolve path
    disk ← takeFolders disk place.dropLast
    disk ← takeConfig disk place
    if let .ok config := AppConfig.load (disk.readText place) then
      folder := Command.recordFolder? s config
      if let some records := folder then
        disk ← takeRecords disk records
  pure ({ s with disk }, folder)

/-- Prints what a run has come to. -/
def report : Command.Ending → IO Unit
  | .misuse => IO.eprint Command.usage
  | .help => IO.print Command.usage
  | .noConfig e => IO.eprintln (e.message?.getD "could not parse config")
  | .aborted reason => IO.eprintln reason
  | .failed e => IO.eprintln ("mlabns exited with an error: " ++ e.message)
  | .synchronized r => IO.println ("synchronization complete: " ++ toString r.entries ++ " entries")
  | .serving _ => pure ()

end Roster

open Roster in
def main (arguments : List String) : IO UInt32 := do
  let (s, folder) ← surroundings arguments
  let (ending, disk) := Command.run s arguments
  if let some records := folder then
    leaveRecords s.disk disk records
  report ending
  if let .serving server := ending then
    serveLines (← IO.getStdin) (← IO.getStdout) server
  pure ((ending.status?.getD 0).toUInt32)
