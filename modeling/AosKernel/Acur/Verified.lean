import AosKernel.Credentials.Pbkdf2

/-!
# What `acur install` installs

`fetch_entry` of `acur.c` with the helpers it uses. Its copies of `sha256_init`, `sha256_update`,
`sha256_final` and `bytes_to_hex` do what those of `credentials.c` do, so these are used. The
answers of the network and of the file system are given beforehand. A response is the list of what
its reads return; a read of nothing, and the end of the list, are the end of the stream. The
messages to the terminal are left out.

The digest runs over the body as it arrives, and `write_buf_fd` drops the rest of a piece when a
`write` fails: `install_only_verified` and `lost_write_installed`.
-/

namespace AosKernel.Acur

open Lib Credentials CString

/-! ## Strings -/

/-- `copy_bytes`; what is behind a zero byte is not part of the string. -/
def copyBytes (cap : Nat) (src : List UInt8) : Option CString :=
  if src.length + 1 > cap then none else some (ofBytes src)

def copyCstr (cap : Nat) (src : CString) : Option CString :=
  if src.length + 1 > cap then none else some src

def append (cap : Nat) (dst src : CString) : CString := dst ++ src.take (cap - 1 - dst.length)

def endsWith (value suffix : CString) : Bool :=
  suffix.length ≤ value.length && value.drop (value.length - suffix.length) == suffix

def packageSuffix (path : CString) : Option CString :=
  [ofString ".deb", ofString ".ainstall", ofString ".AppImage",
    ofString ".appimage"].find? (endsWith path)

def downloadDir : CString := ofString "/main/Downloads"

def slash : CChar := ⟨47, by decide⟩

def liveDownloadPath (requested sourcePath : CString) : CString :=
  let leaf := (requested.reverse.takeWhile fun c => c != slash).reverse
  let leaf := if leaf = [] then ofString "aos-download" else leaf
  let outfile := append 160 (append 160 (append 160 [] downloadDir) [slash]) leaf
  let outfile :=
    match packageSuffix leaf with
    | some _ => outfile
    | none =>
        match packageSuffix sourcePath with
        | some suffix => append 160 outfile suffix
        | none => outfile
  if outfile.length ≤ downloadDir.length + 1 then ofString "/main/Downloads/aos-download"
  else outfile

/-- The loop of `parse_ipv4`: the number read so far, its digits, and the parts before it. -/
def parseIpv4Loop : CString → Nat → Nat → List Nat → Option (List Nat)
  | [], part, digits, out => if digits = 0 ∨ out.length ≠ 3 then none else some (out ++ [part])
  | c :: s, part, digits, out =>
      if 48 ≤ c.val ∧ c.val ≤ 57 then
        let part := part * 10 + (c.val.toNat - 48)
        if part > 255 then none else parseIpv4Loop s part (digits + 1) out
      else if c.val = 46 then
        if digits = 0 ∨ out.length ≥ 3 then none else parseIpv4Loop s 0 0 (out ++ [part])
      else none

def parseIpv4 (s : CString) : Option (List Nat) := parseIpv4Loop s 0 0 []

def buildRequest (host path : CString) : CString :=
  let path := if path = [] then [slash] else path
  let req := append 512 [] (ofString "GET ")
  let req := append 512 req path
  let req := append 512 req (ofString " HTTP/1.0\r\nHost: ")
  let req := append 512 req host
  append 512 req (ofString "\r\nUser-Agent: AOS-acur/0.1\r\nConnection: close\r\n\r\n")

/-! ## The header of a response -/

/-- The loop of `find_header_end`, `i` bytes into the buffer. -/
def headerEndFrom : List UInt8 → Nat → Option Nat
  | [], _ => none
  | b :: rest, i =>
      if (b :: rest).take 4 = [13, 10, 13, 10] then some (i + 4) else headerEndFrom rest (i + 1)

def findHeaderEnd (buf : List UInt8) : Option Nat := headerEndFrom buf 0

def isDigitByte (b : UInt8) : Bool := 48 ≤ b && b ≤ 57

def httpStatusCode (buf : List UInt8) : Option Nat :=
  if buf.length < 12 ∨ buf.take 5 ≠ bytes (ofString "HTTP/") then none
  else
    let rest := (buf.dropWhile fun b => b != 32).dropWhile fun b => b == 32
    let digits := (rest.take 3).takeWhile isDigitByte
    if digits.length = 3 then
      some (digits.foldl (fun code b => code * 10 + (b.toNat - 48)) 0)
    else none

/-- `lower_char`. -/
def lowerByte (b : UInt8) : UInt8 := if 65 ≤ b ∧ b ≤ 90 then b + 32 else b

def headerNameMatches (buf name : List UInt8) : Bool :=
  (buf.take name.length).map lowerByte == name.map lowerByte && buf[name.length]? == some 58

/-- The loop of `find_header_value`: the value of the first line that has the name. -/
def headerValueFrom (name : List UInt8) : Bool → List UInt8 → Option (List UInt8)
  | _, [] => none
  | lineStart, b :: rest =>
      if name.length < (b :: rest).length ∧ lineStart ∧ headerNameMatches (b :: rest) name then
        some ((((b :: rest).drop (name.length + 1)).dropWhile fun c => c == 32 || c == 9).takeWhile
          fun c => c != 13 && c != 10)
      else headerValueFrom name (b == 10) rest

def findHeaderValue (buf name : List UInt8) : Option (List UInt8) := headerValueFrom name true buf

def sliceStartsWith (value : List UInt8) (text : CString) : Bool :=
  (value.take text.length).map lowerByte == (bytes text).map lowerByte

def parseRedirectTarget (buf : List UInt8) (currentHost : CString) : Option (CString × CString) :=
  match findHeaderValue buf (bytes (ofString "location")) with
  | none => none
  | some value =>
      if sliceStartsWith value (ofString "https://") then none
      else if sliceStartsWith value (ofString "http://") then
        let rest := value.drop 7
        let host := rest.takeWhile fun b => b != 47
        let path := rest.dropWhile fun b => b != 47
        if host = [] then none
        else do
          let outHost ← copyBytes 128 host
          let outPath ← if path ≠ [] then copyBytes 256 path else copyCstr 256 [slash]
          some (outHost, outPath)
      else if value.head? = some 47 then do
        let outHost ← copyCstr 128 currentHost
        let outPath ← copyBytes 256 value
        some (outHost, outPath)
      else none

/-! ## The outside -/

/-- `struct package_entry`, without the description. -/
structure PackageEntry where
  name : CString
  host : CString
  path : CString
  outfile : CString
  sha256Hex : Option CString

/-- What the network does with one request: whether each step succeeds, and what the reads return,
`none` for an error. -/
structure Response where
  socket : Bool
  bind : Bool
  dns : Fin 3 → Bool
  connect : Bool
  request : Bool
  reads : List (Option (List UInt8))

/-- What is outside the program. `writes n` is the result of the call of `write` on the output file
with the number `n`. -/
structure Host where
  opens : Bool
  writes : Nat → Int
  respond : Nat → CString → Response

/-- The output file: its bytes, and the number of `write` calls on it. -/
structure Output where
  content : List UInt8
  calls : Nat

/-- The loop of `write_buf_fd` with `fuel` bytes at most: an error or an empty write ends it, and
nobody learns of it. -/
def writeLoop (host : Host) : Nat → List UInt8 → Output → Output
  | 0, _, out => out
  | fuel + 1, data, out =>
      if data = [] then out
      else
        let rc := host.writes out.calls
        if rc ≤ 0 then { out with calls := out.calls + 1 }
        else
          let count := min rc.toNat data.length
          writeLoop host fuel (data.drop count) ⟨out.content ++ data.take count, out.calls + 1⟩

/-- `write_buf_fd`; every round of its loop takes at least one byte. -/
def writeBufFd (host : Host) (data : List UInt8) (out : Output) : Output :=
  writeLoop host data.length data out

/-! ## The download -/

/-- What a download has so far: the running digest, the output file, and the bytes it counts. -/
structure Download where
  sha : Sha256Ctx
  out : Output
  saved : Nat

/-- A piece of the body: it is hashed if there is a digest to compare with, and written. -/
def takeBody (host : Host) (entry : PackageEntry) (piece : List UInt8) (d : Download) :
    Download where
  sha := if entry.sha256Hex.isSome then sha256Update d.sha piece else d.sha
  out := writeBufFd host piece d.out
  saved := d.saved + piece.length

inductive LoopEnd where
  | failed
  | redirect (host path : CString)
  | finished (bodyStarted : Bool)

/-- The read loop of `fetch_entry`, with the header so far and whether the body has started. -/
def readLoop (host : Host) (entry : PackageEntry) (currentHost : CString) (mayRedirect : Bool) :
    List (Option (List UInt8)) → List UInt8 → Bool → Download → LoopEnd × Download
  | [], _, started, d => (.finished started, d)
  | none :: _, _, _, d => (.failed, d)
  | some bytes :: reads, header, started, d =>
      let rx := bytes.take 512
      if rx = [] then (.finished started, d)
      else if started then
        readLoop host entry currentHost mayRedirect reads header true (takeBody host entry rx d)
      else if header.length + rx.length > 1024 then (.failed, d)
      else
        let header := header ++ rx
        match findHeaderEnd header with
        | none => readLoop host entry currentHost mayRedirect reads header false d
        | some bodyAt =>
            match httpStatusCode header with
            | none => (.failed, d)
            | some status =>
                if 200 ≤ status ∧ status < 300 then
                  let d :=
                    if bodyAt < header.length then takeBody host entry (header.drop bodyAt) d else d
                  readLoop host entry currentHost mayRedirect reads header true d
                else if 300 ≤ status ∧ status < 400 ∧ mayRedirect then
                  match parseRedirectTarget header currentHost with
                  | some (newHost, newPath) =>
                      match copyCstr 128 newHost, copyCstr 256 newPath with
                      | some newHost, some newPath => (.redirect newHost newPath, d)
                      | _, _ => (.failed, d)
                  | none => (.failed, d)
                else (.failed, d)

/-- The part of `fetch_entry` from `retry_request` on, with `left` redirects left: whether a body
was received. -/
def requestLoop (host : Host) (entry : PackageEntry) :
    (left : Nat) → CString → CString → Download → Bool × Download
  | left, currentHost, currentPath, d =>
      let response := host.respond left (buildRequest currentHost currentPath)
      let resolved :=
        (parseIpv4 currentHost).isSome || response.dns 0 || response.dns 1 || response.dns 2
      if response.socket && response.bind && resolved && response.connect && response.request then
        match readLoop host entry currentHost (decide (0 < left)) response.reads [] false d with
        | (.failed, d) => (false, d)
        | (.finished started, d) => (started, d)
        | (.redirect newHost newPath, d) =>
            match left with
            | 0 => (false, d)
            | left + 1 => requestLoop host entry left newHost newPath d
      else (false, d)

/-- The characters of a digest, compared without regard to case. -/
def lowerChar (c : CChar) : UInt8 := lowerByte c.val

def hexDigestMatches (a b : CString) : Bool :=
  a.length == 64 && b.length == 64 && a.map lowerChar == b.map lowerChar

/-- What `fetch_entry` comes to: an error, a finished download, or a call of `uni install` on a
path, with the bytes of the file at that time. -/
inductive Outcome where
  | failed
  | fetched (path : CString) (content : List UInt8)
  | installing (path : CString) (content : List UInt8)

/-- `fetch_entry`; `ctx` is what the memory of the digest's context holds before it is initialised.
The second component is the output file. -/
def fetchEntry (host : Host) (ctx : Sha256Ctx) (entry : PackageEntry) (installMode : Bool) :
    Outcome × Output :=
  let outfile := liveDownloadPath entry.outfile entry.path
  match copyCstr 128 entry.host, copyCstr 256 entry.path with
  | some currentHost, some currentPath =>
      if host.opens = false then (.failed, ⟨[], 0⟩)
      else
        let sha := if entry.sha256Hex.isSome then sha256Init ctx else ctx
        match requestLoop host entry 3 currentHost currentPath ⟨sha, ⟨[], 0⟩, 0⟩ with
        | (false, d) => (.failed, d.out)
        | (true, d) =>
            let verified :=
              match entry.sha256Hex with
              | none => true
              | some expected => hexDigestMatches (bytesToHex (sha256Final d.sha).1) expected
            if verified = false then (.failed, d.out)
            else if installMode then (.installing outfile d.out.content, d.out)
            else (.fetched outfile d.out.content, d.out)
  | _, _ => (.failed, ⟨[], 0⟩)

/-! ## Verified downloads -/

/-- Every `write` to the output file so far has taken at least one byte. -/
def Output.Accepted (host : Host) (out : Output) : Prop := ∀ n < out.calls, 0 < host.writes n

theorem Output.Accepted.mono {host : Host} {out out' : Output} (h : out'.Accepted host)
    (hle : out.calls ≤ out'.calls) : out.Accepted host :=
  fun n hn => h n (lt_of_lt_of_le hn hle)

/-- The write loop stores all of its data unless a call takes nothing. -/
lemma writeLoop_spec (host : Host) :
    ∀ (fuel : Nat) (data : List UInt8) (out : Output), data.length ≤ fuel →
      out.calls ≤ (writeLoop host fuel data out).calls ∧
        ((writeLoop host fuel data out).Accepted host →
          (writeLoop host fuel data out).content = out.content ++ data) := by
  intro fuel
  induction fuel with
  | zero =>
    intro data out hlen
    obtain rfl : data = [] := List.length_eq_zero_iff.1 (Nat.le_zero.1 hlen)
    exact ⟨le_rfl, fun _ => (List.append_nil _).symm⟩
  | succ fuel ih =>
    intro data out hlen
    rw [writeLoop]
    by_cases hnil : data = []
    · rw [if_pos hnil, hnil, List.append_nil]
      exact ⟨le_rfl, fun _ => rfl⟩
    rw [if_neg hnil]
    dsimp only
    by_cases hrc : host.writes out.calls ≤ 0
    · rw [if_pos hrc]
      refine ⟨Nat.le_succ _, fun haccepted => ?_⟩
      have hpos := haccepted out.calls (Nat.lt_succ_self _)
      omega
    rw [if_neg hrc]
    have hdata : 0 < data.length := List.length_pos_of_ne_nil hnil
    have hshort : (data.drop (min (host.writes out.calls).toNat data.length)).length ≤ fuel := by
      rw [List.length_drop]
      omega
    obtain ⟨hcalls, hcontent⟩ := ih _
      ⟨out.content ++ data.take (min (host.writes out.calls).toNat data.length), out.calls + 1⟩
      hshort
    refine ⟨(Nat.le_succ _).trans hcalls, fun haccepted => ?_⟩
    rw [hcontent haccepted, List.append_assoc, List.take_append_drop]

/-- What a download has is described by the part of the body it has taken: the digest has seen it,
and the file holds it if every `write` took something. -/
structure Tracks (host : Host) (d : Download) (body : List UInt8) : Prop where
  sha : d.sha.After body
  stored : d.out.Accepted host → d.out.content = body

section Steps

variable {host : Host} {entry : PackageEntry}

lemma Tracks.takeBody {d : Download} {body : List UInt8} (h : Tracks host d body)
    (hsha : entry.sha256Hex.isSome = true) (piece : List UInt8) :
    Tracks host (takeBody host entry piece d) (body ++ piece) where
  sha := by
    unfold Acur.takeBody
    rw [if_pos hsha]
    exact sha256Update_after h.sha piece
  stored := by
    intro haccepted
    obtain ⟨hcalls, hcontent⟩ := writeLoop_spec host piece.length piece d.out le_rfl
    rw [← h.stored (haccepted.mono hcalls)]
    exact hcontent haccepted

lemma readLoop_tracks (hsha : entry.sha256Hex.isSome = true) (currentHost : CString)
    (mayRedirect : Bool) :
    ∀ (reads : List (Option (List UInt8))) (header : List UInt8) (started : Bool) {d : Download}
      {body : List UInt8}, Tracks host d body →
      ∃ body', Tracks host
        (readLoop host entry currentHost mayRedirect reads header started d).2 body' := by
  intro reads
  induction reads with
  | nil => exact fun _ _ _ body h => ⟨body, h⟩
  | cons read reads ih =>
    intro header started d body h
    cases read with
    | none => exact ⟨body, h⟩
    | some =>
    rw [readLoop]
    dsimp only
    split
    · exact ⟨body, h⟩
    split
    · exact ih _ _ (h.takeBody hsha _)
    split
    · exact ⟨body, h⟩
    split
    · exact ih _ _ h
    split
    · exact ⟨body, h⟩
    split
    · -- the first piece of the body is what follows the header
      split
      · exact ih _ _ (h.takeBody hsha _)
      · exact ih _ _ h
    split
    · split
      · split
        · exact ⟨body, h⟩
        · exact ⟨body, h⟩
      · exact ⟨body, h⟩
    · exact ⟨body, h⟩

lemma requestLoop_tracks (hsha : entry.sha256Hex.isSome = true) :
    ∀ (left : Nat) (currentHost currentPath : CString) {d : Download} {body : List UInt8},
      Tracks host d body →
      ∃ body', Tracks host (requestLoop host entry left currentHost currentPath d).2 body' := by
  intro left
  induction left with
  | zero =>
    intro currentHost currentPath d body h
    rw [requestLoop]
    dsimp only
    split
    · obtain ⟨body', h'⟩ := readLoop_tracks hsha currentHost (decide (0 < 0))
        (host.respond 0 (buildRequest currentHost currentPath)).reads [] false h
      split
      all_goals
        next hloop =>
        rw [hloop] at h'
        exact ⟨body', h'⟩
    · exact ⟨body, h⟩
  | succ left ih =>
    intro currentHost currentPath d body h
    rw [requestLoop]
    dsimp only
    split
    · obtain ⟨body', h'⟩ := readLoop_tracks hsha currentHost (decide (0 < left + 1))
        (host.respond (left + 1) (buildRequest currentHost currentPath)).reads [] false h
      split
      · next hloop =>
        rw [hloop] at h'
        exact ⟨body', h'⟩
      · next hloop =>
        rw [hloop] at h'
        exact ⟨body', h'⟩
      · next hloop =>
        rw [hloop] at h'
        exact ih _ _ h'
    · exact ⟨body, h⟩

end Steps

/-! ## Digests as text -/

/-- A character that matches the digit of a number regardless of case stands for that number. -/
lemma parseHexDigit_of_lowerChar (c : CChar) (value : Fin 16)
    (h : lowerChar (hexDigit value) = lowerChar c) : parseHexDigit c = some value.val := by
  obtain ⟨b, hb⟩ := c
  have hall : ∀ (n : Fin 256) value,
      lowerByte (hexDigit value).val = lowerByte (UInt8.ofNat n.val) →
      ∀ hne : UInt8.ofNat n.val ≠ 0, parseHexDigit ⟨UInt8.ofNat n.val, hne⟩ = some value.val := by
    decide +kernel
  have hbyte : UInt8.ofNat b.toNat = b := UInt8.ofNat_toNat
  have hspec := hall ⟨b.toNat, b.toNat_lt⟩ value
  simp only [hbyte] at hspec
  exact hspec h hb

/-- A text that matches the digits of some bytes regardless of case reads as these bytes. -/
lemma hexToBytes_of_lowerChar : ∀ {n : Nat} (bytes : Bytes n) (text : CString),
    (bytesToHex bytes.val).map lowerChar = text.map lowerChar → hexToBytes n text = some bytes := by
  intro n
  induction n with
  | zero =>
    rintro ⟨bytes, hlen⟩ text _
    obtain rfl := List.length_eq_zero_iff.1 hlen
    rfl
  | succ n ih =>
    rintro ⟨_ | ⟨b, bytes⟩, hlen⟩ text htext
    · simp at hlen
    rw [bytesToHex, List.flatMap_cons, ← bytesToHex] at htext
    rcases text with _ | ⟨c, _ | ⟨d, text⟩⟩
    · simp [hexPair] at htext
    · simp [hexPair] at htext
    simp only [hexPair, List.cons_append, List.nil_append, List.map_cons, List.cons.injEq] at htext
    obtain ⟨hc, hd, hrest⟩ := htext
    have hlow := ih ⟨bytes, by simpa using hlen⟩ text hrest
    have hvalue := hexPair_value ⟨b.toNat, b.toNat_lt⟩
    simp only [hexToBytes, parseHexDigit_of_lowerChar c _ hc, parseHexDigit_of_lowerChar d _ hd,
      hlow, Option.map_some]
    simp only [hvalue, UInt8.ofNat_toNat]

def GivesDigest (hex : CString) (bytes : List UInt8) : Prop :=
  hex.length = 64 ∧ hexToBytes 32 hex = some ⟨Sha256.hash bytes, Sha256.hash_length bytes⟩

lemma givesDigest_of_matches {hex : CString} {bytes : List UInt8}
    (h : hexDigestMatches (bytesToHex (Sha256.hash bytes)) hex = true) : GivesDigest hex bytes := by
  simp only [hexDigestMatches, Bool.and_eq_true, beq_iff_eq] at h
  exact ⟨h.1.2, hexToBytes_of_lowerChar ⟨Sha256.hash bytes, Sha256.hash_length bytes⟩ hex h.2⟩

/-! ## The result -/

/-- In every run whose `write` calls on the output file all take at least one byte, `uni install` is
run only on a file whose bytes have the digest of the catalog. -/
theorem install_only_verified (host : Host) (ctx : Sha256Ctx) (entry : PackageEntry)
    {hex path : CString} {content : List UInt8} (hsha : entry.sha256Hex = some hex)
    (hwrites : (fetchEntry host ctx entry true).2.Accepted host)
    (hinstall : (fetchEntry host ctx entry true).1 = .installing path content) :
    GivesDigest hex content := by
  have hsome : entry.sha256Hex.isSome = true := by rw [hsha]; rfl
  unfold fetchEntry at hwrites hinstall
  dsimp only at hwrites hinstall
  split at hinstall
  swap
  · simp at hinstall
  next currentHost currentPath hhost hpath =>
  rw [hhost, hpath] at hwrites
  dsimp only at hwrites
  split at hinstall
  · simp at hinstall
  next hopen =>
  rw [if_neg hopen, if_pos hsome] at hwrites
  have hstart : Tracks host ⟨sha256Init ctx, ⟨[], 0⟩, 0⟩ [] :=
    ⟨sha256Init_after ctx, fun _ => rfl⟩
  obtain ⟨body, htracks⟩ := requestLoop_tracks hsome 3 currentHost currentPath hstart
  cases hloop : requestLoop host entry 3 currentHost currentPath ⟨sha256Init ctx, ⟨[], 0⟩, 0⟩ with
  | mk received =>
    rw [hloop] at hwrites hinstall htracks
    cases received with
    | false => simp at hinstall
    | true =>
    simp only [hsha, if_true] at hwrites hinstall
    rw [sha256Final_eq htracks.sha] at hwrites hinstall
    cases hmatch : hexDigestMatches (bytesToHex (Sha256.hash body)) hex with
    | false => simp [hmatch] at hinstall
    | true =>
    simp only [hmatch, Bool.true_eq_false, if_false] at hwrites hinstall
    simp only [Outcome.installing.injEq] at hinstall
    rw [← hinstall.2, htracks.stored hwrites]
    exact givesDigest_of_matches hmatch

/-! ## A lost write -/

/-- A response to one request: the header and the body `a` in one piece. -/
def demoReads : List (Option (List UInt8)) :=
  [some (bytes (ofString "HTTP/1.0 200 OK\r\n\r\na"))]

/-- A server that answers every request with `demoReads`, and a file system whose writes have the
given result. -/
def demoHost (rc : Int) : Host where
  opens := true
  writes := fun _ => rc
  respond := fun _ _ => ⟨true, true, fun _ => true, true, true, demoReads⟩

def demoEntry : PackageEntry where
  name := ofString "demo"
  host := ofString "10.0.2.2"
  path := ofString "/demo.deb"
  outfile := ofString "demo"
  sha256Hex := some (ofString
    "ca978112ca1bbdcafac231b39a23dc4da786eff8147c4e72b9807785afee48bb")

/-- What a run of `fetch_entry` ends with: the bytes of the file given to `uni install`. -/
def Outcome.installed : Outcome → Option (List UInt8)
  | .installing _ content => some content
  | _ => none

lemma eq_installing {o : Outcome} {content : List UInt8} (h : o.installed = some content) :
    ∃ path, o = .installing path content := by
  cases o with
  | failed | fetched => simp [Outcome.installed] at h
  | installing path =>
    obtain rfl := Option.some.inj h
    exact ⟨path, rfl⟩

/-- With a write that takes the byte, the package is installed. -/
theorem install_only_verified_demo :
    (fetchEntry (demoHost 1) .wiped demoEntry true).1.installed = some [97] ∧
      GivesDigest (ofString
        "ca978112ca1bbdcafac231b39a23dc4da786eff8147c4e72b9807785afee48bb") [97] := by
  have hinstalled : (fetchEntry (demoHost 1) .wiped demoEntry true).1.installed = some [97] := by
    decide +kernel
  obtain ⟨path, hpath⟩ := eq_installing hinstalled
  refine ⟨hinstalled, install_only_verified (demoHost 1) .wiped demoEntry rfl ?_ hpath⟩
  exact fun n _ => Int.one_pos

/-- With a write that fails, `uni install` is run on an empty file. -/
theorem lost_write_installed :
    (fetchEntry (demoHost (-28)) .wiped demoEntry true).1.installed = some [] ∧
      ¬GivesDigest (ofString
        "ca978112ca1bbdcafac231b39a23dc4da786eff8147c4e72b9807785afee48bb") [] := by
  refine ⟨by decide +kernel, ?_⟩
  rintro ⟨-, hdigest⟩
  -- the catalog's digest starts with the byte `ca`, that of the empty file with `e3`
  have hcatalog : (hexToBytes 32 (ofString
      "ca978112ca1bbdcafac231b39a23dc4da786eff8147c4e72b9807785afee48bb")).map
      (fun bytes => bytes.val.head?) = some (some 0xca) := by
    decide +kernel
  have hempty : Sha256.hash [] = digest .wiped [[]] := (digest_eq_hash .wiped [[]]).symm
  simp only [hdigest, Option.map_some, hempty] at hcatalog
  revert hcatalog
  decide +kernel

end AosKernel.Acur
