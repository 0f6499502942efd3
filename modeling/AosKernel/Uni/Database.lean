import AosKernel.Uni.Package

/-!
# The database, payloads and removal

The text in which `uni.c` keeps what is installed, the extraction of Debian packages, as a stream or
(with gzip) as a whole, and `remove_package`. With a manifest, all of its path lines are checked
before the first path is removed; without one, the directory of a package that is not a system
package is removed as a tree.
-/

namespace AosKernel.Uni

open Lib Lib.Paths Fallible

/-! ## The database -/

def dbCap : Nat := 128 * 1024

structure InstalledRecord where
  id : Text idCap
  name : Text 64
  version : Text 32
  kind : Text 16
  compatibility : Text 24
  entry : Text pathCap
  description : Text 160
  provides : Text 256

variable (host : Host)

/-- `load_database`: the text of the database, up to its first zero byte. -/
def loadDatabase : Command (Option CString) := do
  let file ← openForReading host uniDb
  match file with
  | none => pure (some [])
  | some bytes =>
      let got ← host.try .read uniDb
      pure (if got then some (CString.ofBytes (bytes.take (dbCap - 1))) else none)

def writeDatabase (data : CString) : Command Unit := do
  ensureDirectoryTree host uniStateRoot true
  let opened ← openTruncated host uniDb
  if opened = false then failure
  else
    let written ← writeAll host uniDb data.bytes
    if written then pure () else failure

/-- `field_copy`: the field at the start of a line, and the line behind it. -/
def fieldCopy (n : Nat) (line : CString) : Option (Text n × CString) := do
  let field ← copyText n (line.takeWhile (· != bar))
  some (field, (line.dropWhile (· != bar)).drop 1)

def parseInstalledLine (line : CString) : Option InstalledRecord := do
  let (id, line) ← fieldCopy idCap line
  let (name, line) ← fieldCopy 64 line
  let (version, line) ← fieldCopy 32 line
  let (kind, line) ← fieldCopy 16 line
  let (compatibility, line) ← fieldCopy 24 line
  let (entry, line) ← fieldCopy pathCap line
  let (description, line) ← fieldCopy 160 line
  let (_, line) ← fieldCopy 32 line
  let (_, line) ← fieldCopy 32 line
  let (provides, _) ← if line = [] then some (emptyText, []) else fieldCopy 256 line
  if id.val = [] then none
  else some ⟨id, name, version, kind, compatibility, entry, description, provides⟩

def recordFor (id line : CString) : Option InstalledRecord :=
  (parseInstalledLine line).filter fun record => record.id.val == id

def findRecord (id db : CString) : Option InstalledRecord :=
  (lines isLineEnd db).findSome? (recordFor id)

variable (id : CString)

def findInstalledRecord : Command (Option InstalledRecord) := do
  let db ← loadDatabase host
  pure (db.bind (findRecord id))

/-- The loop of `database_without`, over the lines. -/
def withoutLoop (id : CString) : List CString → CString → Option CString
  | [], out => some out
  | line :: rest, out =>
      if (recordFor id line).isSome then withoutLoop id rest out
      else if line.length + 1 > dbCap - out.length - 1 then none
      else withoutLoop id rest (out ++ line ++ [newline])

def databaseWithout : Command CString := do
  let db ← loadDatabase host
  let db ← ofOption db
  ofOption (withoutLoop id (lines isLineEnd db) [])

/-! ## Manifests -/

def manifestPathFor : Option (Text pathCap) := do
  let path ← appendText emptyText (uniManifestRoot ++ [slash])
  let path ← appendText path id
  appendText path (CString.ofString ".manifest")

/-! ## Payloads of Debian packages -/

def streamBufferSize : Nat := 64 * 1024

/-- The pieces in which `extract_plain_member_stream` reads a member. -/
def readPieces : Nat → List UInt8 → List (List UInt8)
  | 0, _ => []
  | _ + 1, [] => []
  | fuel + 1, b :: data =>
      (b :: data).take streamBufferSize :: readPieces fuel ((b :: data).drop streamBufferSize)

/-- The loop of `extract_plain_member_stream`. -/
def plainLoop (host : Host) (sourcePath : CString) : List (List UInt8) → Stream → Command Stream
  | [], s => pure s
  | piece :: pieces, s => do
      readExact host sourcePath
      let s ← tarExtractFeed host piece s
      plainLoop host sourcePath pieces s

def extractPlainMemberStream (sourcePath : CString) (file : List UInt8)
    (member : ArMember) (info : PackageInfo) : Command PackageInfo := do
  let data := memberBytes file member
  readExact host sourcePath
  let s ← plainLoop host sourcePath (readPieces data.length data) (tarExtractInit info)
  if tarExtractComplete s then pure s.info else failure

/-- `extract_xz_member_stream`; what the decoder gives for the member is the host's answer. -/
def extractXzMemberStream (sourcePath : CString) (file : List UInt8)
    (member : ArMember) (info : PackageInfo) : Command PackageInfo := do
  readExact host sourcePath
  let (pieces, finished) := host.xzStream (memberBytes file member)
  let s ← feedAll host pieces (tarExtractInit info)
  if finished ∧ tarExtractComplete s then pure s.info else failure

def extractArchiveMemberStream (sourcePath : CString) (file : List UInt8)
    (member : ArMember) (info : PackageInfo) : Command PackageInfo := do
  if endsWith member.name.val tarSuffix then
    extractPlainMemberStream host sourcePath file member { info with compression := noneText }
  else if endsWith member.name.val xzSuffix then
    extractXzMemberStream host sourcePath file member { info with compression := xzText }
  else if endsWith member.name.val gzipSuffix then
    let (payload, compression) ← loadArchiveMember host sourcePath file member
    extractDataTar host payload { info with compression := compression }
  else failure

/-! ## Trees -/

/-- The names that `remove_tree` skips. -/
def isSelfOrParent (name : CString) : Bool := name == [dot] || name == [dot, dot]

/-- `remove_tree` with `16 - depth` levels left. -/
def removeTree (host : Host) : Nat → CString → Command Unit
  | 0, _ => failure
  | levels + 1, path => do
      let opened ← pathExists host path true
      if opened = false then
        let done ← unlink host path
        if done then pure () else failure
      else
        let batches ← step fun w => (some (host.batches w.time path), w)
        batches.forM fun batch => do
          let names ← ofOption batch
          names.forM fun name =>
            if isSelfOrParent name.val then pure ()
            else do
              let child ← ofOption (copyText pathCap path)
              let child ← ofOption (appendChar child slash)
              let child ← ofOption (appendText child name.val)
              removeTree host levels child.val
        let done ← rmdir host path
        if done then pure () else failure

/-! ## Removal by a manifest -/

def manifestCap : Nat := 4096 + maxCreatedPaths * (pathCap + 16)

/-- `load_manifest`: the path of the manifest and its bytes. -/
def loadManifest : Command (Text pathCap × List UInt8) := do
  let path ← ofOption (manifestPathFor id)
  let file ← openForReading host path.val
  let file ← ofOption file
  if file.length = 0 ∨ file.length ≥ manifestCap then failure
  else
    mapMemory host (file.length + 1)
    readExact host path.val
    pure (path, file)

def validateManifestPayloadPath (path packageId : CString) (systemInstall : Bool) : Bool :=
  match path with
  | [] => false
  | c :: rest =>
      if c ≠ slash then false
      else match normalizeArchivePath 127 rest with
        | none => false
        | some normalized =>
            match appendText (⟨[slash], by decide⟩ : Text pathCap) normalized.val with
            | none => false
            | some expected =>
                if expected.val ≠ path ∨ pathHasPrefixComponent path uniStateRoot then false
                else if systemInstall then true
                else match joinInstallPath packageId [] with
                  | none => false
                  | some privateRoot => pathHasPrefixComponent path privateRoot.val

def packageKey : List UInt8 := (CString.ofString "package=").bytes

/-- The loop of `manifest_matches_package`: the first line with the key decides. -/
def matchesLoop (id : CString) : List (List UInt8) → Bool
  | [] => false
  | line :: rest =>
      if line.length > packageKey.length ∧ packageKey.isPrefixOf line then
        let value := line.drop packageKey.length
        value.length == id.length && CString.ofBytes value == id
      else matchesLoop id rest

/-- `manifest_matches_package`; an identifier fits the buffer for it. -/
def manifestMatchesPackage (data : List UInt8) (id : CString) : Bool :=
  matchesLoop id (lines isLineEndByte data)

def isPathLine (line : List UInt8) : Bool := line.length ≥ 7 && pathKey.isPrefixOf line

/-- The path of a path line, if it fits `io_buffer`. -/
def linePath (line : List UInt8) : Option CString :=
  (copyBytes 4096 (line.drop 7)).map Subtype.val

/-- The check of `validate_manifest_paths` on a path line. -/
def validPathLine (systemInstall : Bool) (line : List UInt8) : Bool :=
  ((line.drop 5).head? == some 0x66 || (line.drop 5).head? == some 0x64) &&
    (line.drop 6).head? == some 0x7c &&
    match linePath line with
    | none => false
    | some path => validateManifestPayloadPath path id systemInstall

def validateManifestPaths (data : List UInt8) (id : CString) (systemInstall : Bool) : Bool :=
  manifestMatchesPackage data id &&
    (lines isLineEndByte data).all fun line =>
      !isPathLine line || validPathLine id systemInstall line

/-- The removal of the path of a line in `remove_manifest_paths`. -/
def removeLine (line : List UInt8) : Command Unit :=
  if isPathLine line = false then pure ()
  else do
    let path ← ofOption (linePath line)
    if (line.drop 5).head? = some 0x64 then
      let _ ← rmdir host path
      pure ()
    else
      let there ← pathExists host path false
      if there = false then pure ()
      else
        let done ← unlink host path
        if done then pure () else failure

def removeManifestPaths (data : List UInt8) : Command Unit :=
  (lines isLineEndByte data).forM (removeLine host)

/-! ## Packages -/

/-- The removal of a package whose manifest was loaded. -/
def removeWithManifest (systemInstall : Bool)
    (manifestPath : CString) (manifest : List UInt8) : Command Unit := do
  if validateManifestPaths manifest id systemInstall = false then failure
  else
    removeManifestPaths host manifest
    let done ← unlink host manifestPath
    if done then pure () else failure

/-- The removal of a package whose manifest could not be loaded. -/
def removeWithoutManifest (systemInstall : Bool) : Command Unit := do
  if systemInstall then failure
  else
    let base ← ofOption (joinInstallPath id [])
    let there ← pathExists host base.val true
    if there then removeTree host 16 base.val else pure ()

def removePackage : Command Unit := do
  if validPackageId id = false then failure
  else
    let record ← findInstalledRecord host id
    let record ← ofOption record
    let systemInstall := record.kind.val == CString.ofString "deb"
    if systemInstall ∧ host.euid ≠ 0 then failure
    else
      let manifest ← (loadManifest host id).attempt
      match manifest with
      | some (path, data) => removeWithManifest host id systemInstall path.val data
      | none => removeWithoutManifest host id systemInstall
      let db ← databaseWithout host id
      writeDatabase host db

end AosKernel.Uni
