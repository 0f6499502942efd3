import AosKernel.Uni.Tar

/-!
# Package files

What `uni.c` reads from a package file before it creates anything: the members of a Debian archive,
the control file, the header of an `.ainstall` package, and the payload. The decompressors are
answers of the host.
-/

namespace AosKernel.Uni

open Lib Lib.Paths CString Fallible

/-! ## Debian archives -/

/-- `struct ar_member`; a member that was not found has size zero. -/
structure ArMember where
  offset : Nat
  size : Nat
  name : Text 32

structure DebArchive where
  control : ArMember
  data : ArMember
  hasDebianBinary : Bool

def noMember : ArMember := ⟨0, 0, emptyText⟩

def arMemberName (raw : List UInt8) : Option (Text 32) :=
  let name := raw.rdropWhile fun b => b == 0x20 || b == 0x2f
  if name = [] then none else copyBytes 32 name

variable (file : List UInt8)

/-- The member at an offset of an archive: its name and its size. -/
def arMemberAt (offset : Nat) : Option (Text 32 × Nat) := do
  let header := (file.drop offset).take 60
  if header.drop 58 ≠ [0x60, 0x0a] then none
  else
    let name ← arMemberName (header.take 16)
    let size ← parseDecimal ((header.drop 48).take 10)
    if size > file.length - (offset + 60) then none else some (name, size)

def addMember (archive : DebArchive) (offset size : Nat) (name : Text 32) : Option DebArchive :=
  if name.val = ofString "debian-binary" then
    if (file.drop offset).take (min size 4) ≠ (ofString "2.0\n").bytes then none
    else some { archive with hasDebianBinary := true }
  else if startsWith name.val (ofString "control.tar") then
    some { archive with control := ⟨offset, size, name⟩ }
  else if startsWith name.val (ofString "data.tar") then
    some { archive with data := ⟨offset, size, name⟩ }
  else some archive

/-- The loop of `scan_deb_archive`; a member takes at least its header. -/
def scanLoop (file : List UInt8) : Nat → Nat → DebArchive → Option DebArchive
  | 0, _, archive => some archive
  | fuel + 1, offset, archive =>
      if offset + 60 > file.length then some archive
      else do
        let (name, size) ← arMemberAt file offset
        let archive ← addMember file archive (offset + 60) size name
        scanLoop file fuel (offset + 60 + size + size % 2) archive

def scanDebArchive : Option DebArchive := do
  if file.take 8 ≠ (ofString "!<arch>\n").bytes then none
  else
    let archive ← scanLoop file file.length 8 ⟨noMember, noMember, false⟩
    if archive.hasDebianBinary = false ∨ archive.control.size = 0 ∨ archive.data.size = 0 then none
    else some archive

def makeMember (name : String) (data : List UInt8) : List UInt8 :=
  ((ofString name).bytes ++ List.replicate 48 0x20).take 48 ++
    digitBytes 10 10 data.length ++ [0x60, 0x0a] ++ data ++ List.replicate (data.length % 2) 0x0a

/-- A Debian package with a control file and a payload that is not compressed. -/
def makeDeb (control : String) (payload : List UInt8) : List UInt8 :=
  (ofString "!<arch>\n").bytes ++
    makeMember "debian-binary" (ofString "2.0\n").bytes ++
    makeMember "control.tar"
      (makeEntry "./control" 0x30 (ofString control).bytes ++ endOfArchive) ++
    makeMember "data.tar" payload

/-! ## Members -/

def maxArchiveSize : Nat := 64 * 1024 * 1024

variable (host : Host)

def mapMemory (size : Nat) : Command Unit := do
  let mapped ← host.try .map []
  if mapped = false ∨ size = 0 ∨ size > maxExtractedSize then failure else pure ()

/-- Reads that have to give all of their bytes. -/
def readExact (path : CString) : Command Unit := do
  let got ← host.try .read path
  if got then pure () else failure

def memberBytes (member : ArMember) : List UInt8 :=
  (file.drop member.offset).take member.size

def gzipExpectedSize (data : List UInt8) : Option Nat :=
  let size := fieldAt data (data.length - 4) 4
  if data.length < 18 ∨ size = 0 ∨ size > maxExtractedSize then none else some size

def tarSuffix : CString := ofString ".tar"
def gzipSuffix : CString := ofString ".tar.gz"
def xzSuffix : CString := ofString ".tar.xz"

/-- The names of the compressions. -/
def noneText : Text 16 := ⟨ofString "none", by decide⟩
def gzipText : Text 16 := ⟨ofString "gzip", by decide⟩
def xzText : Text 16 := ⟨ofString "xz", by decide⟩

/-- `load_archive_member`: the payload and the name of its compression. -/
def loadArchiveMember (sourcePath : CString) (file : List UInt8) (member : ArMember) :
    Command (List UInt8 × Text 16) := do
  let data := memberBytes file member
  if member.size = 0 ∨ member.size > maxArchiveSize then failure
  else
    mapMemory host member.size
    readExact host sourcePath
    if endsWith member.name.val tarSuffix then pure (data, noneText)
    else if endsWith member.name.val gzipSuffix then
      let capacity ← ofOption (gzipExpectedSize data)
      mapMemory host capacity
      let payload ← ofOption (host.inflateGzip data capacity)
      pure (payload, gzipText)
    else if endsWith member.name.val xzSuffix then
      let capacity ← ofOption (host.xzOutputSize data)
      mapMemory host capacity
      let payload ← ofOption (host.xzDecode data capacity)
      pure (payload, xzText)
    else failure

/-! ## Package information -/

/-- The name that `package_defaults` works on, without the ending of its kind. -/
def defaultBase (kind : PackageKind) (sourcePath : CString) : CString :=
  let base := match copyText idCap (pathBasename sourcePath) with
    | some base => base.val
    | none => host.stack
  if kind = .deb ∧ endsWith base (ofString ".deb") then base.take (base.length - 4)
  else if kind = .ainstall ∧ endsWith base (ofString ".ainstall") then
    base.take (base.length - 9)
  else base

def packageDefaults (kind : PackageKind) (sourcePath : CString) : PackageInfo :=
  let id := idFromText (defaultBase host kind sourcePath)
  { kind := kind
    compatibility := .dataOnly
    id := id
    name := ⟨id.val, id.property.trans (by decide)⟩
    version := ⟨ofString "unknown", by decide⟩
    architecture := ⟨ofString "all", by decide⟩
    description := ⟨ofString "Locally installed application", by decide⟩
    depends := emptyText
    preDepends := emptyText
    provides := emptyText
    entryHint := emptyText
    entry := emptyText
    compression := emptyText
    fileCount := 0
    skippedCount := 0
    installedBytes := 0
    systemInstall := decide (kind = .deb) }

/-- A field of a text, or what was there before. -/
def fieldOr (text : CString) (field : String) {n : Nat} (old : Text n) : Text n :=
  (controlField text (ofString field) n).getD old

/-- The fields that both kinds of package have. -/
def commonFields (text : CString) (info : PackageInfo) : PackageInfo :=
  { info with
    name := fieldOr text "Name" ⟨info.id.val, info.id.property.trans (by decide)⟩
    description := fieldOr text "Description" info.description
    depends := fieldOr text "Depends" info.depends
    preDepends := fieldOr text "Pre-Depends" info.preDepends
    provides := fieldOr text "Provides" info.provides }

def controlCap : Nat := 8192

/-- The control file in `read_deb_control`. -/
def readControl (data : List UInt8) (info : PackageInfo) : Option PackageInfo := do
  if data.length = 0 ∨ data.length ≥ controlCap then none
  else
    let text := ofBytes data
    let package ← controlField text (ofString "Package") idCap
    let info := commonFields text { info with id := idFromText package.val }
    some { info with
      version := fieldOr text "Version" ⟨ofString "unknown", by decide⟩
      architecture := fieldOr text "Architecture" ⟨ofString "all", by decide⟩
      entryHint := fieldOr text "X-AOS-Entry" info.entryHint }

/-- The loop of `read_deb_control`. -/
def controlTarLoop : Nat → List UInt8 → PackageInfo → Option PackageInfo
  | 0, _, _ => none
  | fuel + 1, tar, info =>
      match tarNext tar with
      | .entry _ data name rest =>
          if skipDots name.val = ofString "control" then readControl data info
          else controlTarLoop fuel rest info
      | _ => none

def readDebControl (control : List UInt8) (info : PackageInfo) : Option PackageInfo :=
  controlTarLoop (control.length + 1) control info

def architectureSupported (architecture : CString) : Bool :=
  architecture == [] || architecture == ofString "all" ||
    architecture == ofString "amd64" || architecture == ofString "x86_64"

def suffixText (name : CString) : Text 16 :=
  if endsWith name gzipSuffix then gzipText
  else if endsWith name xzSuffix then xzText
  else if endsWith name (ofString ".tar.zst") then ⟨ofString "zstd", by decide⟩
  else if endsWith name tarSuffix then noneText
  else ⟨ofString "unsupported", by decide⟩

/-- `open_deb_archive`: the package file, what it says about the package, and its members. -/
def openDebArchive (sourcePath : CString) : Command (List UInt8 × PackageInfo × DebArchive) := do
  let info := packageDefaults host .deb sourcePath
  let file ← openForReading host sourcePath
  let file ← ofOption file
  readExact host sourcePath
  let archive ← ofOption (scanDebArchive file)
  let (control, _) ← loadArchiveMember host sourcePath file archive.control
  let info ← ofOption (readDebControl control info)
  if architectureSupported info.architecture.val = false then failure
  else pure (file, { info with compression := suffixText archive.data.name.val }, archive)

/-! ## AINSTALL1 packages -/

/-- The loop of `find_ainstall_header_end`, from the byte with the number `i`. -/
def headerEndLoop : List UInt8 → Nat → Option Nat
  | [], _ => none
  | b :: rest, i =>
      if b = 0x0a ∧ rest.head? = some 0x0a then some (i + 2)
      else if b = 0x0d ∧ rest.take 3 = [0x0a, 0x0d, 0x0a] then some (i + 4)
      else headerEndLoop rest (i + 1)

def findAinstallHeaderEnd (header : List UInt8) : Option Nat := headerEndLoop header 0

def payloadMember (format : CString) (offset size : Nat) : Option ArMember :=
  if format = ofString "tar" then
    some ⟨offset, size, ⟨ofString "data.tar", by decide⟩⟩
  else if format = ofString "tar.gz" ∨ format = ofString "gzip" then
    some ⟨offset, size, ⟨ofString "data.tar.gz", by decide⟩⟩
  else if format = ofString "tar.xz" ∨ format = ofString "xz" then
    some ⟨offset, size, ⟨ofString "data.tar.xz", by decide⟩⟩
  else none

/-- What the header of an `.ainstall` file says: the package and the member with its payload. -/
def ainstallHeader (info : PackageInfo) : Option (PackageInfo × ArMember) := do
  let buffer := file.take (controlCap - 1)
  let text := ofBytes buffer
  if file.length < 16 ∨ startsWith text (ofString "AINSTALL1\n") = false then none
  else
    let offset ← findAinstallHeaderEnd buffer
    let info := match controlField text (ofString "Package") idCap with
      | some package => { info with id := idFromText package.val }
      | none => info
    let info := commonFields text info
    let info := { info with
      version := fieldOr text "Version" info.version
      architecture := fieldOr text "Architecture" info.architecture
      entryHint := fieldOr text "Entry" info.entryHint }
    let format : Text 24 := fieldOr text "Payload" ⟨ofString "tar", by decide⟩
    if architectureSupported info.architecture.val = false ∨ offset ≥ file.length then none
    else
      let member ← payloadMember format.val offset (file.length - offset)
      some (info, member)

/-- `inspect_ainstall`; without `loadPayload` the payload is empty. -/
def inspectAinstall (sourcePath : CString) (loadPayload : Bool) :
    Command (PackageInfo × List UInt8) := do
  let info := packageDefaults host .ainstall sourcePath
  let file ← openForReading host sourcePath
  let file ← ofOption file
  readExact host sourcePath
  let (info, member) ← ofOption (ainstallHeader file info)
  if loadPayload then
    let (payload, compression) ← loadArchiveMember host sourcePath file member
    pure ({ info with compression := compression }, payload)
  else
    let compression := if endsWith member.name.val (ofString ".gz") then gzipText
      else if endsWith member.name.val (ofString ".xz") then xzText else noneText
    pure ({ info with compression := compression }, [])

end AosKernel.Uni
