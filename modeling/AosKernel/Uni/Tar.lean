import AosKernel.Lib.Fallible
import AosKernel.Uni.Paths

/-!
# System calls and tar archives

The calls that `uni.c` makes and the journal of the paths it has created. A `Host` answers the
calls: each of them may fail for a reason of the host's own, and it fails where the files do not
allow it. The calls that change what is at a path are recorded.

Over them the two readers of package payloads. `extract_data_tar` walks over a payload in memory;
`tar_extract_feed` is fed the payload in pieces of any size. Both take an entry's name from the pax
or GNU record before it or from its header, normalise it, put it below the directory of the package,
and create a directory or a file there. -/

namespace AosKernel.Uni

open Lib Lib.Paths Function Fallible

/-! ## The host -/

/-- What the file system holds at a path. -/
inductive FileNode where
  | directory
  | regular (bytes : List UInt8)

abbrev Files := CString → Option FileNode

abbrev Name := { c : CString // c ≠ [] ∧ slash ∉ c }

/-- The calls that can fail. -/
inductive Request where
  /-- An open for reading, to see whether there is a file or a directory. -/
  | probe
  /-- An open for reading, to read from the file, and the reads. -/
  | read
  /-- A mapping of memory. -/
  | map
  | mkdir
  /-- An open with `O_CREAT | O_EXCL`. -/
  | create
  /-- An open with `O_CREAT | O_TRUNC`. -/
  | truncate
  | write
  | unlink
  | rmdir
  deriving DecidableEq, Repr

/-- What answers the calls of the program. `allows request path n` says whether the call with the
number `n` may succeed, and `accepts n` how many bytes it takes if it is a write. -/
structure Host where
  euid : Nat
  allows : Request → CString → Nat → Bool
  accepts : Nat → Nat
  /-- What the calls of `getdents64` on a directory opened at some time give, up to the first empty
  answer; `none` is an error. -/
  batches : Nat → CString → List (Option (List Name))
  /-- `uni_inflate_gzip`, for an input and a capacity. -/
  inflateGzip : List UInt8 → Nat → Option (List UInt8)
  /-- `uni_xz_output_size`. -/
  xzOutputSize : List UInt8 → Option Nat
  /-- `uni_xz_decode`, for an input and a capacity. -/
  xzDecode : List UInt8 → Nat → Option (List UInt8)
  /-- The pieces that the XZ stream decoder gives for a member, and whether it ends well. -/
  xzStream : List UInt8 → List (List UInt8) × Bool
  /-- What `package_defaults` finds in its buffer when the name of the file does not fit. -/
  stack : CString

/-- A host that grants every call and writes everything at once. It lists no directories, and what
it decompresses is empty. -/
def Host.obliging : Host where
  euid := 0
  allows := fun _ _ _ => true
  accepts := fun _ => 2 ^ 64
  batches := fun _ _ => []
  inflateGzip := fun _ _ => some []
  xzOutputSize := fun _ => some 1
  xzDecode := fun _ _ => some []
  xzStream := fun _ => ([], true)
  stack := []

/-- A call that changes the directories or opens a file for writing, and whether it succeeded. -/
structure Call where
  request : Request
  path : CString
  done : Bool
  deriving DecidableEq

/-- The state of the program and of the file system. -/
structure World where
  files : Files
  /-- `created_paths` and `created_is_dir`, the newest first. -/
  created : List (Text pathCap × Bool)
  /-- The number of calls so far. -/
  time : Nat
  /-- The recorded calls so far, the newest first. -/
  calls : List Call

/-- A program of the package manager. -/
abbrev Command (α : Type) := Fallible World α

/-! ## Calls -/

variable (host : Host)

/-- A call that changes what is at a path. It succeeds if the host lets it and the files allow
it. -/
def Host.call (request : Request) (path : CString) (can : Option FileNode → Bool)
    (node : Option FileNode) : Command Bool :=
  step fun w =>
    let done := host.allows request path w.time && can (w.files path)
    (some done, { w with
      files := if done then update w.files path node else w.files
      time := w.time + 1
      calls := ⟨request, path, done⟩ :: w.calls })

def isDirectory : Option FileNode → Bool
  | some .directory => true
  | _ => false

def isRegular : Option FileNode → Bool
  | some (.regular _) => true
  | _ => false

def mkdirat (path : CString) : Command Bool :=
  host.call .mkdir path Option.isNone (some .directory)

/-- `openat` for writing with `O_CREAT | O_EXCL`. -/
def openExclusive (path : CString) : Command Bool :=
  host.call .create path Option.isNone (some (.regular []))

/-- `openat` for writing with `O_CREAT | O_TRUNC`. -/
def openTruncated (path : CString) : Command Bool :=
  host.call .truncate path (fun node => !isDirectory node) (some (.regular []))

def unlink (host : Host) (path : CString) : Command Bool :=
  host.call .unlink path isRegular none

def rmdir (host : Host) (path : CString) : Command Bool :=
  host.call .rmdir path isDirectory none

/-- A call without an effect on the files. -/
def Host.ask (request : Request) (path : CString) {α : Type}
    (answer : Bool → Option FileNode → α) : Command α :=
  step fun w =>
    (some (answer (host.allows request path w.time) (w.files path)), { w with time := w.time + 1 })

/-- `path_exists`: an open for reading, with `O_DIRECTORY` for a directory. The kernel refuses to
open a directory without it. -/
def pathExists (path : CString) (directory : Bool) : Command Bool :=
  host.ask .probe path fun allowed node =>
    allowed && if directory then isDirectory node else isRegular node

/-- An open for reading and the contents of the file. -/
def openForReading (path : CString) : Command (Option (List UInt8)) :=
  host.ask .read path fun allowed node =>
    match allowed, node with
    | true, some (.regular bytes) => some bytes
    | _, _ => none

/-- Reading from an open file, or mapping memory: only the answer matters. -/
def Host.try (request : Request) (path : CString) : Command Bool :=
  host.ask request path fun allowed _ => allowed

def appendTo (files : Files) (path : CString) (data : List UInt8) : Files :=
  match files path with
  | some (.regular bytes) => update files path (some (.regular (bytes ++ data)))
  | _ => files

/-- One write to an open file: how many bytes were taken, with zero for an error. -/
def writeOnce (path : CString) (data : List UInt8) : Command Nat :=
  step fun w =>
    let taken := if host.allows .write path w.time then min (host.accepts w.time) data.length else 0
    (some taken, { w with
      files := appendTo w.files path (data.take taken)
      time := w.time + 1 })

/-- The loop of the writers, at most `limit` bytes with one call. Each call takes a byte, so that
the length of the data is enough `fuel`. -/
def writeLoop (host : Host) (path : CString) (limit : Nat) : Nat → List UInt8 → Command Bool
  | _, [] => pure true
  | 0, _ :: _ => pure false
  | fuel + 1, b :: data => do
      let taken ← writeOnce host path ((b :: data).take limit)
      if taken = 0 then pure false
      else writeLoop host path limit fuel ((b :: data).drop taken)

def writeAll (path : CString) (data : List UInt8) : Command Bool :=
  writeLoop host path data.length data.length data

/-! ## The journal -/

def maxCreatedPaths : Nat := 1800

def rememberCreated (path : CString) (isDir : Bool) : Command Bool :=
  step fun w =>
    match copyText pathCap path with
    | some text =>
        if w.created.length ≥ maxCreatedPaths then (some false, w)
        else (some true, { w with created := (text, isDir) :: w.created })
    | none => (some false, w)

def ensureDirectory (path : CString) : Command Unit := do
  let there ← pathExists host path true
  if there then pure ()
  else
    let made ← mkdirat host path
    if made = false then failure
    else
      let found ← pathExists host path true
      if found = false then failure
      else
        let remembered ← rememberCreated path true
        if remembered then pure ()
        else
          let _ ← rmdir host path
          failure

def ensureDirectoryTree (path : CString) (includeLeaf : Bool) : Command Unit := do
  let work ← ofOption (copyText pathCap path)
  (cuts slash work.val).forM (ensureDirectory host)
  if includeLeaf then ensureDirectory host work.val else pure ()

/-- `write_package_file`; the mode of the file is not modelled. -/
def writePackageFile (path : CString) (data : List UInt8) : Command Unit := do
  let isFile ← pathExists host path false
  if isFile then failure
  else
    let isDir ← pathExists host path true
    if isDir then failure
    else
      ensureDirectoryTree host path false
      let opened ← openExclusive host path
      if opened = false then failure
      else
        let written ← writeLoop host path 4096 data.length data
        if written = false then
          let _ ← unlink host path
          failure
        else
          let remembered ← rememberCreated path false
          if remembered then pure ()
          else
            let _ ← unlink host path
            failure

/-! ## Package information -/

inductive PackageKind where
  | unknown
  | ainstall
  | deb
  | appimage
  deriving DecidableEq, Repr

/-- `enum compatibility_kind`. -/
inductive Compatibility where
  | dataOnly
  | aosNative
  | linuxStatic
  | linuxDynamic
  deriving DecidableEq, Repr

structure PackageInfo where
  kind : PackageKind
  compatibility : Compatibility
  id : Text idCap
  name : Text 64
  version : Text 32
  architecture : Text 24
  description : Text 160
  depends : Text 1024
  preDepends : Text 1024
  provides : Text 256
  entryHint : Text pathCap
  entry : Text pathCap
  compression : Text 16
  fileCount : UInt32
  skippedCount : UInt32
  installedBytes : UInt64
  systemInstall : Bool

/-! ## Executables -/

def fieldAt (data : List UInt8) (offset w : Nat) : Nat := leNat ((data.drop offset).take w)

/-- `sizeof(struct elf64_phdr)`. -/
def phdrSize : Nat := 56

/-- `interpreter_matches`, for the program header at `phdr`. -/
def interpreterMatches (data phdr expected : List UInt8) : Bool :=
  let offset := fieldAt phdr 8 8
  let filesz := fieldAt phdr 32 8
  offset ≤ data.length && filesz ≤ data.length - offset && filesz == expected.length + 1 &&
    (data.drop offset).take filesz == expected ++ [0]

/-- The interpreter of a program for this system. -/
def aosInterpreter : List UInt8 := (CString.ofString "/lib/ld64.so.1").bytes

/-- The loop of `classify_elf` over the program headers. -/
def classifyLoop (data : List UInt8) (phoff : Nat) : Nat → Nat → Bool → Compatibility
  | 0, _, hasInterpreter => if hasInterpreter then .linuxDynamic else .linuxStatic
  | left + 1, i, hasInterpreter =>
      let phdr := (data.drop (phoff + i * phdrSize)).take phdrSize
      -- `ELF_PT_INTERP`
      if fieldAt phdr 0 4 ≠ 3 then classifyLoop data phoff left (i + 1) hasInterpreter
      else if interpreterMatches data phdr aosInterpreter then .aosNative
      else classifyLoop data phoff left (i + 1) true

def classifyElf (data : List UInt8) : Option Compatibility :=
  if data.length < 64 then none
  else if data.take 6 ≠ [0x7f, 0x45, 0x4c, 0x46, 2, 1] ∨ fieldAt data 18 2 ≠ 62 ∨
      fieldAt data 54 2 ≠ phdrSize ∨ fieldAt data 32 8 > data.length ∨
      fieldAt data 56 2 > (data.length - fieldAt data 32 8) / phdrSize then none
  else some (classifyLoop data (fieldAt data 32 8) (fieldAt data 56 2) 0 false)

def compatibilityRank : Compatibility → Nat
  | .aosNative => 3
  | .linuxStatic => 2
  | .linuxDynamic => 1
  | .dataOnly => 0

def archivePathMatchesHint (path hint : CString) : Bool :=
  let hint := (skipDots hint).dropWhile (· == slash)
  hint != [] && path == hint

/-- The choice of the entry of a package after an executable file. -/
def chooseEntry (info : PackageInfo) (normalized fullPath : Text pathCap) (data : List UInt8) :
    PackageInfo :=
  match classifyElf data with
  | none => info
  | some candidate =>
      if archivePathMatchesHint normalized.val info.entryHint.val ∨
          compatibilityRank candidate > compatibilityRank info.compatibility then
        { info with compatibility := candidate, entry := fullPath }
      else info

/-! ## Headers -/

def paxType : UInt8 := 0x78
def longNameType : UInt8 := 0x4c
def directoryType : UInt8 := 0x35

def isFileType (type : UInt8) : Bool := type == 0 || type == 0x30 || type == 0x37

variable (header : List UInt8)

def tarHeaderIsZero : Bool := header.all (· == 0)

/-- The sum of a header with blanks in the place of its checksum. -/
def headerSum : Nat :=
  ((header.take 148).map UInt8.toNat).sum + 8 * 0x20 + ((header.drop 156).map UInt8.toNat).sum

def tarChecksumValid : Bool :=
  parseOctal ((header.drop 148).take 8) == some (headerSum header)

def tarHeaderName : Option (Text pathCap) := do
  let name := CString.ofBytes (header.take 100)
  let dir := CString.ofBytes ((header.drop 345).take 155)
  let out ← if dir = [] then some emptyText else (copyText pathCap dir).bind (appendChar · slash)
  if name = [] then none else appendText out name

def headerMode : Option Nat := parseOctal ((header.drop 100).take 8)

def headerSize : Option Nat := parseOctal ((header.drop 124).take 12)

def headerType : UInt8 := header.getD 156 0

def isExecutableMode (mode : Nat) : Bool := mode &&& 0o111 != 0

/-- The end of a long name or a pax value that is taken off. -/
def isNameEnd (b : UInt8) : Bool := b == 0 || b == 0x0a

def isDigitByte (b : UInt8) : Bool := 0x30 ≤ b && b ≤ 0x39

def pathKey : List UInt8 := (CString.ofString "path=").bytes

/-- The loop of `pax_path` from the start of a record; every record has at least one byte. The
length of a record wraps around as a 64-bit number. -/
def paxLoop : Nat → List UInt8 → Option (Text pathCap)
  | 0, _ => none
  | _ + 1, [] => none
  | fuel + 1, b :: data =>
      let record := b :: data
      let digits := record.takeWhile isDigitByte
      let length := digits.foldl (fun n d => (n * 10 + (d.toNat - 0x30)) % 2 ^ 64) 0
      if digits = [] ∨ (record.drop digits.length).head? ≠ some 0x20 ∨ length = 0 ∨
          length > record.length then none
      else if length ≥ digits.length + 6 ∧
          pathKey.isPrefixOf (record.drop (digits.length + 1)) then
        copyBytes pathCap (((record.take length).drop (digits.length + 6)).rdropWhile isNameEnd)
      else paxLoop fuel (record.drop length)

def paxPath (data : List UInt8) : Option (Text pathCap) := paxLoop data.length data

/-- The name in an entry with a GNU long name, if it fits. -/
def longName (data : List UInt8) : Option (Text pathCap) :=
  copyBytes pathCap (data.rdropWhile isNameEnd)

def isArchiveRoot (name : CString) : Bool := name == [dot] || name == [dot, slash]

/-- The normalised name of an entry and where it goes. -/
def entryDestination (info : PackageInfo) (name : CString) :
    Option (Text pathCap × Text pathCap) := do
  let normalized ← normalizeArchivePath 127 name
  let fullPath ← packageDestinationPath info.systemInstall info.id.val normalized.val
  some (normalized, fullPath)

/-! ## Making headers -/

/-- A number in the given count of digits of a base. -/
def digitBytes (base : Nat) : Nat → Nat → List UInt8
  | 0, _ => []
  | width + 1, n => digitBytes base width (n / base) ++ [UInt8.ofNat (0x30 + n % base)]

/-- A field of a header, with zeros after its bytes. -/
def padField (width : Nat) (bytes : List UInt8) : List UInt8 :=
  (bytes ++ List.replicate width 0).take width

/-- The header that an archiver writes for an entry with the mode `0644`. -/
def makeHeader (name : String) (size : Nat) (type : UInt8) : List UInt8 :=
  let front := padField 100 (CString.ofString name).bytes ++ padField 8 (digitBytes 8 7 0o644) ++
    List.replicate 16 0 ++ padField 12 (digitBytes 8 11 size) ++ List.replicate 12 0
  let back := [type] ++ List.replicate 355 0
  let sum := headerSum (front ++ List.replicate 8 0x20 ++ back)
  front ++ padField 8 (digitBytes 8 6 sum) ++ back

def makeEntry (name : String) (type : UInt8) (data : List UInt8) : List UInt8 :=
  makeHeader name data.length type ++ padField ((data.length + 511) / 512 * 512) data

def endOfArchive : List UInt8 := List.replicate 1024 0

/-! ## Payloads in memory -/

/-- The answers of `tar_next`. -/
inductive TarNext where
  | finished
  | corrupt
  | entry (header data : List UInt8) (name : Text pathCap) (rest : List UInt8)

/-- `tar_next`, on what is left of the archive. -/
def tarNext (tar : List UInt8) : TarNext :=
  if tar.length < 512 then .finished
  else
    let header := tar.take 512
    if tarHeaderIsZero header then .finished
    else if tarChecksumValid header = false then .corrupt
    else match tarHeaderName header, headerSize header with
      | some name, some size =>
          let rounded := (size + 511) / 512 * 512
          if size > 2 ^ 64 - 1 - 511 ∨ rounded > tar.length - 512 then .corrupt
          else .entry header ((tar.drop 512).take size) name (tar.drop (512 + rounded))
      | _, _ => .corrupt

def maxExtractedSize : Nat := 128 * 1024 * 1024

/-- The package after a file of an in-memory payload. -/
def countFile (info : PackageInfo) (normalized fullPath : Text pathCap) (mode : Nat)
    (data : List UInt8) : PackageInfo :=
  let info := { info with
    fileCount := info.fileCount + 1
    installedBytes := info.installedBytes + UInt64.ofNat data.length }
  if isExecutableMode mode ∨ archivePathMatchesHint normalized.val info.entryHint.val then
    chooseEntry info normalized fullPath data
  else info

/-- An entry of `extract_data_tar` that is not a record for the next one. -/
def extractEntry (header data : List UInt8) (name : CString) (info : PackageInfo) :
    Command PackageInfo :=
  if isArchiveRoot name then pure info
  else do
    let (normalized, fullPath) ← ofOption (entryDestination info name)
    if headerType header = directoryType then
      ensureDirectoryTree host fullPath.val true
      pure info
    else if isFileType (headerType header) = false then
      pure { info with skippedCount := info.skippedCount + 1 }
    else if data.length > maxExtractedSize then failure
    else
      let mode ← ofOption (headerMode header)
      writePackageFile host fullPath.val data
      pure (countFile info normalized fullPath mode data)

/-- The loop of `extract_data_tar`; an entry takes at least one byte of the archive. -/
def extractLoop (host : Host) :
    Nat → List UInt8 → Text pathCap → PackageInfo → Command PackageInfo
  | 0, _, _, _ => failure
  | fuel + 1, tar, pending, info =>
      match tarNext tar with
      | .finished => pure info
      | .corrupt => failure
      | .entry header data name rest =>
          if headerType header = paxType then
            extractLoop host fuel rest ((paxPath data).getD emptyText) info
          else if headerType header = longNameType then do
            let pending ← ofOption (longName data)
            extractLoop host fuel rest pending info
          else do
            let name := if pending.val = [] then name.val else pending.val
            let info ← extractEntry host header data name info
            extractLoop host fuel rest emptyText info

def extractDataTar (payload : List UInt8) (info : PackageInfo) : Command PackageInfo :=
  extractLoop host (payload.length + 1) payload emptyText info

/-! ## Streams -/

/-- `enum tar_stream_state`. -/
inductive StreamPhase where
  | header
  | data
  | padding
  | done
  deriving DecidableEq, Repr

/-- `struct tar_extract_stream`; the mode of an entry is not read again after its header. -/
structure Stream where
  info : PackageInfo
  phase : StreamPhase
  header : List UInt8
  dataRemaining : Nat
  paddingRemaining : Nat
  entrySize : Nat
  entryType : UInt8
  normalized : Text pathCap
  fullPath : Text pathCap
  pendingName : Text pathCap
  metadata : List UInt8
  elfProbe : List UInt8
  /-- `output_fd >= 0`; the file is the one at `fullPath`. -/
  output : Bool
  captureMetadata : Bool
  regularFile : Bool
  executable : Bool
  zeroBlocks : Nat

def tarExtractInit (info : PackageInfo) : Stream where
  info := info
  phase := .header
  header := []
  dataRemaining := 0
  paddingRemaining := 0
  entrySize := 0
  entryType := 0
  normalized := emptyText
  fullPath := emptyText
  pendingName := emptyText
  metadata := []
  elfProbe := []
  output := false
  captureMetadata := false
  regularFile := false
  executable := false
  zeroBlocks := 0

def elfProbeCap : Nat := 4096
def tarMetadataCap : Nat := 4096
def maxPackageFileSize : Nat := 1024 * 1024 * 1024
def maxPackageBytes : Nat := 2 * 1024 * 1024 * 1024

def tarExtractWriteFile (s : Stream) (data : List UInt8) : Command (Bool × Stream) := do
  let s := { s with elfProbe := s.elfProbe ++ data.take (elfProbeCap - s.elfProbe.length) }
  let written ← writeAll host s.fullPath.val data
  pure (written, s)

/-- The name that a record gives to the next entry in `tar_extract_finish_entry`. -/
def finishMetadata (s : Stream) : Option (Text pathCap) :=
  if s.entryType = longNameType then longName s.metadata
  else some ((paxPath s.metadata).getD emptyText)

/-- The package after a file of a stream. -/
def finishFile (s : Stream) : PackageInfo :=
  let info := { s.info with
    fileCount := s.info.fileCount + 1
    installedBytes := s.info.installedBytes + UInt64.ofNat s.entrySize }
  if s.executable then chooseEntry info s.normalized s.fullPath s.elfProbe else info

def tarExtractFinishEntry (s : Stream) : Option Stream := do
  let pendingName ← if s.captureMetadata then finishMetadata s else some s.pendingName
  some { s with
    info := if s.captureMetadata = false ∧ s.regularFile then finishFile s else s.info
    pendingName := pendingName
    output := false
    captureMetadata := false
    regularFile := false
    executable := false
    metadata := []
    elfProbe := []
    phase := if s.paddingRemaining ≠ 0 then .padding else .header
    header := if s.paddingRemaining ≠ 0 then s.header else [] }

/-- The file of an entry in `tar_extract_begin_entry`. -/
def beginFile (size mode : Nat) (s : Stream) : Command Stream := do
  if size > maxPackageFileSize ∨ s.info.installedBytes.toNat > maxPackageBytes - size then failure
  else
    let count ← step fun w => (some w.created.length, w)
    if count ≥ maxCreatedPaths then failure
    else
      let isFile ← pathExists host s.fullPath.val false
      if isFile then failure
      else
        let isDir ← pathExists host s.fullPath.val true
        if isDir then failure
        else
          ensureDirectoryTree host s.fullPath.val false
          let opened ← openExclusive host s.fullPath.val
          if opened = false then failure
          else
            let remembered ← rememberCreated s.fullPath.val false
            if remembered = false then
              let _ ← unlink host s.fullPath.val
              failure
            else
              pure { s with
                output := true
                regularFile := true
                executable := isExecutableMode mode ||
                  archivePathMatchesHint s.normalized.val s.info.entryHint.val }

/-- The part of `tar_extract_begin_entry` for an entry that is not a record for the next one. -/
def beginContent (headerName : Text pathCap) (size mode : Nat) (s : Stream) : Command Stream := do
  let name := if s.pendingName.val = [] then headerName else s.pendingName
  let s := { s with pendingName := emptyText }
  if isArchiveRoot name.val then pure s
  else
    let (normalized, fullPath) ← ofOption (entryDestination s.info name.val)
    let s := { s with normalized := normalized, fullPath := fullPath }
    if s.entryType = directoryType then
      ensureDirectoryTree host fullPath.val true
      pure s
    else if isFileType s.entryType then beginFile host size mode s
    else pure { s with info := { s.info with skippedCount := s.info.skippedCount + 1 } }

def tarExtractBeginEntry (s : Stream) : Command Stream :=
  if tarHeaderIsZero s.header then
    pure { s with
      zeroBlocks := s.zeroBlocks + 1
      header := []
      phase := if s.zeroBlocks + 1 ≥ 2 then .done else s.phase }
  else if s.zeroBlocks ≠ 0 ∨ tarChecksumValid s.header = false then failure
  else do
    let headerName ← ofOption (tarHeaderName s.header)
    let mode ← ofOption (headerMode s.header)
    let size ← ofOption (headerSize s.header)
    let type := headerType s.header
    let s := { s with
      entryType := type
      entrySize := size
      dataRemaining := size
      paddingRemaining := (512 - size % 512) % 512
      metadata := []
      elfProbe := []
      captureMetadata := type == paxType || type == longNameType
      regularFile := false
      executable := false
      normalized := emptyText
      fullPath := emptyText }
    let s ← if s.captureMetadata then
        if size > tarMetadataCap then failure else pure s
      else beginContent host headerName size mode s
    let s := { s with phase := .data }
    if s.dataRemaining = 0 then ofOption (tarExtractFinishEntry s) else pure s

/-- The loop of `tar_extract_feed`. Each round takes at least one byte, so that the number of bytes
is enough `fuel`. -/
def feedLoop (host : Host) : Nat → List UInt8 → Stream → Command Stream
  | _, [], s => pure s
  | 0, _ :: _, _ => failure
  | fuel + 1, b :: data, s =>
      let input := b :: data
      match s.phase with
      | .done => if input.all (· == 0) then pure s else failure
      | .header => do
          let take := min (512 - s.header.length) input.length
          let s := { s with header := s.header ++ input.take take }
          let s ← if s.header.length = 512 then tarExtractBeginEntry host s else pure s
          feedLoop host fuel (input.drop take) s
      | .data => do
          let take := min s.dataRemaining input.length
          let s ← if s.captureMetadata then
              pure { s with metadata := s.metadata ++ input.take take }
            else if s.regularFile then do
              let (written, s) ← tarExtractWriteFile host s (input.take take)
              if written then pure s else failure
            else pure s
          let s := { s with dataRemaining := s.dataRemaining - take }
          let s ← if s.dataRemaining = 0 then ofOption (tarExtractFinishEntry s)
            else pure s
          feedLoop host fuel (input.drop take) s
      | .padding =>
          let take := min s.paddingRemaining input.length
          let s := { s with paddingRemaining := s.paddingRemaining - take }
          let s := if s.paddingRemaining = 0 then { s with phase := .header, header := [] } else s
          feedLoop host fuel (input.drop take) s

def tarExtractFeed (data : List UInt8) (s : Stream) : Command Stream :=
  feedLoop host data.length data s

def tarExtractComplete (s : Stream) : Bool :=
  !(s.output || s.phase == .data || s.phase == .padding || s.header != [] || s.zeroBlocks == 0)

def feedAll (host : Host) : List (List UInt8) → Stream → Command Stream
  | [], s => pure s
  | data :: pieces, s => do
      let s ← tarExtractFeed host data s
      feedAll host pieces s

end AosKernel.Uni
