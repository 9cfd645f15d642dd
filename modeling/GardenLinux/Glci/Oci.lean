import GardenLinux.Lib.Stream
import GardenLinux.Lib.Process
import GardenLinux.Lib.PyData
import GardenLinux.Lib.Json

/-!
# Publishing a container image

`publish_container_image_from_tarfile` of `ci/glci/oci.py`: the root file system of a release is
read chunk by chunk, compressed into the only layer of an image, and pushed to a registry with
the config and the manifest of the image.  The hashes, the lengths and the checksum of the layer
are kept up to date while it is written.

What is proved here:

* `writeLayer_reading` — after the loop the accumulators are those of the file that was written;
* `reads_jsonText` — what `json.dumps` writes is read back;
* `layer_described` — what is pushed describes the bytes of the layer, however they were read: the
  config and the manifest, read as JSON, hold its digests and its size;
* `tagsPublished_iff` — the manifest is published under all requested references exactly if they
  are one and the same.
-/

namespace Glci

open PyData Stream

/-! ## The libraries and the registry -/

/-- `hashlib.sha256` with `hexdigest`, `gziputil`, and `normalise_image_reference` of `oci.util`. -/
structure OciLibraries where
  sha256 : Incremental String
  gzipHeader : (fname : String) → Bytes
  gzipFooter : (crc32 : UInt32) → (uncompressedSize : ℕ) → Bytes
  zlibCompressobj : Compressor
  normaliseImageReference : String → Except PyError String

inductive RegistryCall
  | putBlob (imageReference digest : String) (octetsCount : ℕ) (data : Bytes)
  | putManifest (imageReference : String) (manifest : Bytes)
  deriving DecidableEq, Repr

/-- A client of a registry; a call may raise. -/
@[reducible] def ociClient : Interface := ⟨RegistryCall, fun _ => Except PyError Unit⟩

abbrev Publish := ExceptT PyError (Process ociClient)

namespace Publish

def ofExcept {α : Type} (r : Except PyError α) : Publish α := ExceptT.mk (.done r)

def push (c : RegistryCall) : Publish Unit := ExceptT.mk (.call c .done)

end Publish

/-! ## Documents -/

/-- The four hexadecimal digits of `\uXXXX`. -/
def hexDigits (n : ℕ) : List Char :=
  [n / 4096, n / 256, n / 16, n].map fun d => Nat.digitChar (d % 16)

/-- A character in a JSON string, with everything but printable ASCII escaped. -/
def jsonChar (c : Char) : List Char :=
  let n := c.toNat
  if n = 34 then ['\\', c]
  else if n = 92 then ['\\', c]
  else if n = 10 then ['\\', 'n']
  else if n = 13 then ['\\', 'r']
  else if n = 9 then ['\\', 't']
  else if n = 12 then ['\\', 'f']
  else if n = 8 then ['\\', 'b']
  else if 32 ≤ n ∧ n ≤ 126 then [c]
  else if n < 65536 then '\\' :: 'u' :: hexDigits n
  else '\\' :: 'u' :: hexDigits (0xd800 + (n - 65536) / 1024) ++
    '\\' :: 'u' :: hexDigits (0xdc00 + (n - 65536) % 1024)

def jsonString (s : String) : List Char :=
  Char.ofNat 34 :: s.toList.flatMap jsonChar ++ [Char.ofNat 34]

mutual

/-- `json.dumps`. -/
def jsonText : PyValue → Except PyError (List Char)
  | .none => .ok "null".toList
  | .int i => .ok (toString i).toList
  | .str s => .ok (jsonString s)
  | .list items | .tuple items =>
    match jsonAll items with
    | .ok texts => .ok ('[' :: [',', ' '].intercalate texts ++ [']'])
    | .error e => .error e
  | .dict entries =>
    match jsonItems entries with
    | .ok texts => .ok (Char.ofNat 123 :: [',', ' '].intercalate texts ++ [Char.ofNat 125])
    | .error e => .error e
  | .enum cls _ => .error (.typeError ("Object of type " ++ cls ++ " is not JSON serializable"))
  | .object cls _ => .error (.typeError ("Object of type " ++ cls ++ " is not JSON serializable"))

def jsonAll : List PyValue → Except PyError (List (List Char))
  | [] => .ok []
  | v :: vs =>
    match jsonText v, jsonAll vs with
    | .ok text, .ok texts => .ok (text :: texts)
    | .error e, _ => .error e
    | .ok _, .error e => .error e

def jsonItems : Items → Except PyError (List (List Char))
  | [] => .ok []
  | (name, v) :: items =>
    match jsonText v, jsonItems items with
    | .ok text, .ok texts => .ok ((jsonString name ++ ':' :: ' ' :: text) :: texts)
    | .error e, _ => .error e
    | .ok _, .error e => .error e

end

/-- `json.dumps(dataclasses.asdict(v)).encode('utf-8')`. -/
def dumpDataclass (v : PyValue) : Except PyError Bytes := do
  let fields ← asdict v
  let text ← jsonText fields
  pure (String.ofList text).toUTF8.data.toList

/-- `oci.Architecture`. -/
inductive OciArchitecture
  | amd64
  | arm64
  deriving DecidableEq, Repr

def OciArchitecture.value : OciArchitecture → String
  | .amd64 => "amd64"
  | .arm64 => "arm64"

inductive OperatingSystem
  | linux
  deriving DecidableEq, Repr

def OperatingSystem.value : OperatingSystem → String
  | .linux => "linux"

def containerImageConfig : PyValue :=
  .object "ContainerImageConfig"
    [("User", .none), ("ExposedPorts", .none),
      ("Env", .list [.str "PATH=/usr/local/sbin:/usr/local/bin:/usr/sbin:/usr/bin:/sbin:/bin"]),
      ("Entrypoint", .none), ("Cmd", .list [.str "/bin/sh"]), ("Volumes", .none),
      ("WorkingDir", .none), ("Labels", .none), ("StopSignal", .none), ("Memory", .none),
      ("MemorySwap", .none), ("CpuShares", .none), ("Healthcheck", .none)]

def imageConfig (architecture : OciArchitecture) (os : OperatingSystem) (timestamp : String)
    (diffIds : List String) : PyValue :=
  .object "ImageConfig"
    [("architecture", .str architecture.value), ("author", .str "Gardenlinux CI"),
      ("created", .str timestamp),
      ("history", .list [.object "HistoryConfig"
        [("created", .str timestamp), ("author", .none), ("created_by", .none),
          ("comment", .none), ("empty_layer", .none)]]),
      ("os", .str os.value),
      ("rootfs", .object "RootfsConfig"
        [("type", .str "layers"), ("diff_ids", .list (diffIds.map .str))]),
      ("config", containerImageConfig)]

def imageManifest (configSize : ℕ) (configDigest : String) (layerSize : ℕ) (layerDigest : String) :
    PyValue :=
  .object "ImageManifestV2_2"
    [("config", .object "ImageManifestV2_2Config"
        [("size", .int configSize), ("digest", .str configDigest),
          ("mediaType", .str "application/vnd.docker.container.image.v1+json")]),
      ("layers", .list [.object "ImageManifestV2_2Layers"
        [("size", .int layerSize), ("digest", .str layerDigest), ("urls", .none),
          ("mediaType", .str "application/vnd.docker.image.rootfs.diff.tar.gzip")]]),
      ("schemaVersion", .int 2),
      ("mediaType", .str "application/vnd.docker.distribution.manifest.v2+json")]

/-! ## The layer -/

variable (lib : OciLibraries)

/-- The variables of the function while it writes the layer. -/
structure LayerState where
  gzipFile : TempFile
  compressedHash : lib.sha256.State
  length : ℕ
  srcLength : ℕ
  crc : UInt32
  uncompressedHash : lib.sha256.State
  compressor : lib.zlibCompressobj.State

namespace LayerState

variable {lib}

/-- Some bytes go to the file, to the hash of the file and to its length. -/
def emit (s : LayerState lib) (data : Bytes) : LayerState lib :=
  { s with
    gzipFile := s.gzipFile.write data
    compressedHash := lib.sha256.update s.compressedHash data
    length := s.length + data.length }

variable (lib) in
/-- The variables once the header is written. -/
def start : LayerState lib :=
  emit
    { gzipFile := .empty
      compressedHash := lib.sha256.init
      length := 0
      srcLength := 0
      crc := 0
      uncompressedHash := lib.sha256.init
      compressor := lib.zlibCompressobj.init }
    (lib.gzipHeader "layer.tar")

/-- The body of the loop. -/
def feed (s : LayerState lib) (chunk : Bytes) : LayerState lib :=
  let (compressor, compressed) := lib.zlibCompressobj.compress s.compressor chunk
  emit
    { s with
      uncompressedHash := lib.sha256.update s.uncompressedHash chunk
      crc := crc32 chunk s.crc
      srcLength := s.srcLength + chunk.length
      compressor := compressor }
    compressed

/-- What follows the loop, up to the footer. -/
def finish (s : LayerState lib) : LayerState lib :=
  (s.emit (lib.zlibCompressobj.flush s.compressor)).emit (lib.gzipFooter s.crc s.srcLength)

end LayerState

/-- `while chunk := f.read(1024)`, over what `f.read` returns or raises. -/
def layerLoop : List (Except PyError Bytes) → LayerState lib → Except PyError (LayerState lib)
  | [], s => .ok s
  | .error e :: _, _ => .error e
  | .ok chunk :: reads, s => if chunk = [] then .ok s else layerLoop reads (s.feed chunk)

def writeLayer (tarFile : List (Except PyError Bytes)) : Except PyError (LayerState lib) :=
  match layerLoop lib tarFile (.start lib) with
  | .ok s => .ok s.finish
  | .error e => .error e

/-! ## Publishing -/

/-- `image_reference.rsplit(':', 1)[0]`. -/
def imageName (imageReference : String) : String :=
  if ':' ∈ imageReference.toList then
    String.ofList (imageReference.toList.rdropWhile (· ≠ ':')).dropLast
  else imageReference

def imageReferences (imageReference : String) (additionalTags : List String) : List String :=
  imageReference :: additionalTags.map fun tag => imageName imageReference ++ ":" ++ tag

def digestOf (data : Bytes) : String := "sha256:" ++ lib.sha256.of data

/-- `publish_container_image_from_tarfile`; `timestamp` is the time of `datetime.now`. -/
def publishContainerImageFromTarfile (tarFile : List (Except PyError Bytes))
    (imageReference : String) (architecture : OciArchitecture) (os : OperatingSystem)
    (additionalTags : List String) (timestamp : String) : Publish (String × ℕ) := do
  let imageReference ← Publish.ofExcept (lib.normaliseImageReference imageReference)
  let layer ← Publish.ofExcept (writeLayer lib tarFile)
  let compressedDigest := "sha256:" ++ lib.sha256.result layer.compressedHash
  Publish.push (.putBlob imageReference compressedDigest layer.length (layer.gzipFile.seek 0).read)
  let config ← Publish.ofExcept (dumpDataclass (imageConfig architecture os timestamp
    ["sha256:" ++ lib.sha256.result layer.uncompressedHash]))
  Publish.push (.putBlob imageReference (digestOf lib config) config.length config)
  let manifest ← Publish.ofExcept (dumpDataclass (imageManifest config.length (digestOf lib config)
    layer.length compressedDigest))
  (imageReferences imageReference additionalTags).forM fun _ =>
    Publish.push (.putManifest imageReference manifest)
  pure (digestOf lib manifest, manifest.length)

/-! ## What was written -/

/-- A way to read a content in chunks that are not empty; at the end of the file, `f.read` returns
no bytes. -/
structure Reading (content : Bytes) where
  chunks : List Bytes
  nonempty : ∀ chunk ∈ chunks, chunk ≠ []
  flatten : chunks.flatten = content

def Reading.reads {content : Bytes} (reading : Reading content) : List (Except PyError Bytes) :=
  reading.chunks.map .ok

/-- The file of a layer: header, compressed chunks, remainder and footer. -/
def layerFile {content : Bytes} (reading : Reading content) : Bytes :=
  lib.gzipHeader "layer.tar" ++ lib.zlibCompressobj.compressed reading.chunks ++
    lib.gzipFooter (crc32 content 0) content.length

variable {lib}

/-- The accumulators are those of what was written and of what was read. -/
structure LayerState.Tracks (file read : Bytes) (s : LayerState lib) : Prop where
  gzipFile : s.gzipFile = .ofContent file
  compressedHash : s.compressedHash = lib.sha256.update lib.sha256.init file
  length : s.length = file.length
  srcLength : s.srcLength = read.length
  crc : s.crc = crc32 read 0
  uncompressedHash : s.uncompressedHash = lib.sha256.update lib.sha256.init read

namespace LayerState

variable {s : LayerState lib} {file read : Bytes}

theorem Tracks.emit (h : s.Tracks file read) (data : Bytes) :
    (s.emit data).Tracks (file ++ data) read where
  gzipFile := by
    show s.gzipFile.write data = _
    rw [h.gzipFile, TempFile.write_ofContent]
  compressedHash := by
    show lib.sha256.update s.compressedHash data = _
    rw [h.compressedHash, lib.sha256.update_append]
  length := by
    show s.length + data.length = _
    rw [h.length, List.length_append]
  srcLength := h.srcLength
  crc := h.crc
  uncompressedHash := h.uncompressedHash

variable (lib) in
theorem tracks_start : (start lib).Tracks (lib.gzipHeader "layer.tar") [] := by
  have hempty : Tracks [] []
      { gzipFile := .empty
        compressedHash := lib.sha256.init
        length := 0
        srcLength := 0
        crc := 0
        uncompressedHash := lib.sha256.init
        compressor := lib.zlibCompressobj.init : LayerState lib } :=
    ⟨rfl, (lib.sha256.update_nil _).symm, rfl, rfl, (crc32_nil 0).symm,
      (lib.sha256.update_nil _).symm⟩
  exact hempty.emit _

/-- One turn of the loop. -/
theorem Tracks.feed (h : s.Tracks file read) (chunk : Bytes) :
    (s.feed chunk).Tracks (file ++ (lib.zlibCompressobj.compress s.compressor chunk).2)
      (read ++ chunk) := by
  have hread : Tracks file (read ++ chunk)
      { s with
        uncompressedHash := lib.sha256.update s.uncompressedHash chunk
        crc := crc32 chunk s.crc
        srcLength := s.srcLength + chunk.length
        compressor := (lib.zlibCompressobj.compress s.compressor chunk).1 } := by
    refine ⟨h.gzipFile, h.compressedHash, h.length, ?_, ?_, ?_⟩
    · show s.srcLength + chunk.length = _
      rw [h.srcLength, List.length_append]
    · show crc32 chunk s.crc = _
      rw [h.crc, crc32_append]
    · show lib.sha256.update s.uncompressedHash chunk = _
      rw [h.uncompressedHash, lib.sha256.update_append]
  exact hread.emit _

theorem Tracks.finish (h : s.Tracks file read) :
    s.finish.Tracks (file ++ lib.zlibCompressobj.flush s.compressor ++
      lib.gzipFooter (crc32 read 0) read.length) read := by
  have hend := (h.emit (lib.zlibCompressobj.flush s.compressor)).emit
    (lib.gzipFooter s.crc s.srcLength)
  rw [h.crc, h.srcLength] at hend
  rw [LayerState.finish, h.crc, h.srcLength]
  exact hend

end LayerState

/-- The loop goes over all chunks, and the accumulators keep track. -/
theorem layerLoop_chunks {chunks : List Bytes} (hchunks : ∀ chunk ∈ chunks, chunk ≠ [])
    {s : LayerState lib} {file read : Bytes} (h : s.Tracks file read) :
    ∃ s', layerLoop lib (chunks.map .ok) s = .ok s' ∧
      s'.compressor = (lib.zlibCompressobj.outputs s.compressor chunks).1 ∧
      s'.Tracks (file ++ (lib.zlibCompressobj.outputs s.compressor chunks).2.flatten)
        (read ++ chunks.flatten) := by
  induction chunks generalizing s file read with
  | nil =>
    refine ⟨s, rfl, rfl, ?_⟩
    simpa [Compressor.outputs] using h
  | cons chunk chunks ih =>
    have hchunk : chunk ≠ [] := hchunks chunk (List.mem_cons_self ..)
    obtain ⟨s', hloop, hcompressor, htracks⟩ :=
      ih (fun c hc => hchunks c (List.mem_cons_of_mem _ hc)) (h.feed chunk)
    refine ⟨s', ?_, hcompressor, ?_⟩
    · rw [List.map_cons, layerLoop, if_neg hchunk, hloop]
    · show s'.Tracks (file ++ (_ ++ (lib.zlibCompressobj.outputs _ chunks).2.flatten))
        (read ++ (chunk ++ chunks.flatten))
      rw [← List.append_assoc, ← List.append_assoc]
      exact htracks

variable (lib) in
/-- After the loop the accumulators are those of the file and of the content. -/
theorem writeLayer_reading {content : Bytes} (reading : Reading content) :
    ∃ s, writeLayer lib reading.reads = .ok s ∧ s.Tracks (layerFile lib reading) content := by
  obtain ⟨s, hloop, hcompressor, htracks⟩ :=
    layerLoop_chunks reading.nonempty (LayerState.tracks_start lib)
  rw [List.nil_append, reading.flatten] at htracks
  refine ⟨s.finish, ?_, ?_⟩
  · rw [writeLayer, Reading.reads, hloop]
  · have hfinish := htracks.finish
    rw [hcompressor] at hfinish
    rw [layerFile, Compressor.compressed, ← List.append_assoc]
    exact hfinish

/-! ## What is read in the documents -/

mutual

/-- The JSON value of Python data. -/
def jsonValue : PyValue → Json.Value
  | .none | .enum _ _ | .object _ _ => .null
  | .int i => .int i
  | .str s => .text s.toList
  | .list items | .tuple items => .list (jsonValues items)
  | .dict entries => .dict (jsonEntries entries)

def jsonValues : List PyValue → List Json.Value
  | [] => []
  | v :: vs => jsonValue v :: jsonValues vs

def jsonEntries : Items → List (List Char × Json.Value)
  | [] => []
  | (name, v) :: items => (name.toList, jsonValue v) :: jsonEntries items

end

/-- Every character comes back from a JSON string. -/
theorem spells_jsonChar (c : Char) : Json.Spells (jsonChar c) [c] := by
  have hne : ∀ d : Char, c.toNat ≠ d.toNat → c ≠ d := by
    rintro d hd rfl
    exact hd rfl
  have heq : ∀ d : Char, c.toNat = d.toNat → c = d := by
    intro d hd
    rw [← Char.ofNat_toNat c, hd, Char.ofNat_toNat]
  unfold jsonChar
  simp only
  split
  · next h =>
    obtain rfl := heq (Char.ofNat 34) h
    exact .escape (by decide) (by decide)
  split
  · next h =>
    obtain rfl := heq '\\' h
    exact .escape (by decide) (by decide)
  split
  · next h =>
    obtain rfl := heq '\n' h
    exact .escape (by decide) (by decide)
  split
  · next h =>
    obtain rfl := heq '\r' h
    exact .escape (by decide) (by decide)
  split
  · next h =>
    obtain rfl := heq '\t' h
    exact .escape (by decide) (by decide)
  split
  · next h =>
    obtain rfl := heq (Char.ofNat 12) h
    exact .escape (by decide) (by decide)
  split
  · next h =>
    obtain rfl := heq (Char.ofNat 8) h
    exact .escape (by decide) (by decide)
  split
  · next hquote hback _ _ _ _ _ h => exact .plain (hne _ hquote) (hne _ hback) h.1
  split
  · next h => exact .unit h
  · next h => exact .pair (by omega) rfl rfl

theorem spells_jsonString (s : String) : ∃ key, jsonString s = Bash.dquote :: key ++ [Bash.dquote] ∧
    Json.Spells key s.toList :=
  ⟨_, rfl, .flatMap spells_jsonChar _⟩

mutual

/-- What `json.dumps` writes is read back. -/
theorem reads_jsonText : ∀ (v : PyValue) {text : List Char}, jsonText v = .ok text →
    Json.Reads text (jsonValue v)
  | .none, _, h => Except.ok.inj h ▸ .null
  | .int i, _, h => Except.ok.inj h ▸ .int i
  | .str s, _, h => by
    obtain ⟨key, hkey, hspells⟩ := spells_jsonString s
    rw [← Except.ok.inj h, hkey]
    exact .text hspells
  | .list items, text, h | .tuple items, text, h => by
    rw [jsonText] at h
    cases hall : jsonAll items with
    | error e =>
      rw [hall] at h
      cases h
    | ok texts =>
      rw [hall] at h
      rw [← Except.ok.inj h]
      exact .list (reads_jsonAll items hall)
  | .dict entries, text, h => by
    rw [jsonText] at h
    cases hall : jsonItems entries with
    | error e =>
      rw [hall] at h
      cases h
    | ok texts =>
      rw [hall] at h
      rw [← Except.ok.inj h]
      exact .dict (reads_jsonItems entries hall)
  | .enum _ _, _, h => by cases h
  | .object _ _, _, h => by cases h

theorem reads_jsonAll : ∀ (vs : List PyValue) {texts : List (List Char)},
    jsonAll vs = .ok texts → List.Forall₂ Json.Reads texts (jsonValues vs)
  | [], _, h => Except.ok.inj h ▸ .nil
  | v :: vs, texts, h => by
    rw [jsonAll] at h
    cases hv : jsonText v with
    | error e =>
      rw [hv] at h
      cases h
    | ok text =>
      cases hvs : jsonAll vs with
      | error e =>
        rw [hv, hvs] at h
        cases h
      | ok texts =>
        rw [hv, hvs] at h
        rw [← Except.ok.inj h]
        exact .cons (reads_jsonText v hv) (reads_jsonAll vs hvs)

theorem reads_jsonItems : ∀ (items : Items) {texts : List (List Char)},
    jsonItems items = .ok texts → List.Forall₂ Json.ReadsEntry texts (jsonEntries items)
  | [], _, h => Except.ok.inj h ▸ .nil
  | (name, v) :: items, texts, h => by
    rw [jsonItems] at h
    cases hv : jsonText v with
    | error e =>
      rw [hv] at h
      cases h
    | ok text =>
      cases hitems : jsonItems items with
      | error e =>
        rw [hv, hitems] at h
        cases h
      | ok texts =>
        rw [hv, hitems] at h
        rw [← Except.ok.inj h]
        obtain ⟨key, hkey, hspells⟩ := spells_jsonString name
        exact .cons ⟨key, text, by rw [hkey], hspells, reads_jsonText v hv⟩
          (reads_jsonItems items hitems)

end

/-- The bytes are the text of a JSON document. -/
def IsDocument (data : Bytes) (doc : Json.Value) : Prop :=
  ∃ text : String, data = text.toUTF8.data.toList ∧ Json.read text.toList = some doc

/-- A dataclass is dumped as the document of its fields. -/
theorem isDocument_dump {v fields : PyValue} {text : List Char} (hfields : asdict v = .ok fields)
    (htext : jsonText fields = .ok text) :
    ∃ data, dumpDataclass v = .ok data ∧ IsDocument data (jsonValue fields) := by
  refine ⟨(String.ofList text).toUTF8.data.toList, ?_, String.ofList text, rfl, ?_⟩
  · rw [dumpDataclass, hfields]
    show (jsonText fields >>= _) = _
    rw [htext]
    rfl
  · rw [String.toList_ofList]
    exact (reads_jsonText fields htext).read

/-! ## The calls to the registry -/

/-- Some calls one after the other. -/
def pushAll {α : Type} : List RegistryCall → α → Publish α
  | [], a => pure a
  | c :: cs, a => do
    Publish.push c
    pushAll cs a

/-- What a function that publishes asks the registry for: the layer, the config, and the manifest
once for each reference. -/
def registryCalls (lib : OciLibraries) (reference : String) (additionalTags : List String)
    (layer config manifest : Bytes) : List RegistryCall :=
  .putBlob reference (digestOf lib layer) layer.length layer ::
    .putBlob reference (digestOf lib config) config.length config ::
      List.replicate (imageReferences reference additionalTags).length
        (.putManifest reference manifest)

theorem forM_push {ι α : Type} (l : List ι) (c : RegistryCall) (a : α) :
    (do l.forM fun _ => Publish.push c; (pure a : Publish α)) =
      pushAll (List.replicate l.length c) a := by
  induction l with
  | nil => rfl
  | cons i l ih =>
    have hcons : (do (i :: l).forM fun _ => Publish.push c; (pure a : Publish α)) =
        Publish.push c >>= fun _ => (do l.forM fun _ => Publish.push c; (pure a : Publish α)) :=
      bind_assoc (Publish.push c) _ _
    rw [hcons, ih]
    rfl

/-- The calls of a function that publishes. -/
theorem publish_run {tarFile : List (Except PyError Bytes)} {imageReference reference : String}
    {architecture : OciArchitecture} {os : OperatingSystem} (additionalTags : List String)
    {timestamp : String} {layer : LayerState lib} {config manifest : Bytes}
    (hreference : lib.normaliseImageReference imageReference = .ok reference)
    (hlayer : writeLayer lib tarFile = .ok layer)
    (hconfig : dumpDataclass (imageConfig architecture os timestamp
      ["sha256:" ++ lib.sha256.result layer.uncompressedHash]) = .ok config)
    (hmanifest : dumpDataclass (imageManifest config.length (digestOf lib config) layer.length
      ("sha256:" ++ lib.sha256.result layer.compressedHash)) = .ok manifest) :
    publishContainerImageFromTarfile lib tarFile imageReference architecture os additionalTags
      timestamp = pushAll (.putBlob reference ("sha256:" ++ lib.sha256.result layer.compressedHash)
          layer.length (layer.gzipFile.seek 0).read ::
        .putBlob reference (digestOf lib config) config.length config ::
          List.replicate (imageReferences reference additionalTags).length
            (.putManifest reference manifest)) (digestOf lib manifest, manifest.length) := by
  rw [pushAll, pushAll, ← forM_push, publishContainerImageFromTarfile, hreference, hlayer]
  show (Publish.push _ >>= fun _ => Publish.ofExcept (dumpDataclass _) >>= _) = _
  rw [hconfig]
  show (Publish.push _ >>= fun _ => Publish.push _ >>= fun _ =>
    Publish.ofExcept (dumpDataclass _) >>= _) = _
  rw [hmanifest]
  rfl

section Calls

variable {σ α : Type} (S : Service ociClient σ)

/-- What a function that runs alone asks the registry for, in order. -/
def pushed (p : Publish α) (store : σ) : List RegistryCall := (p.run.calls S store).map (·.1)

/-- What it returns or raises. -/
def outcome (p : Publish α) (store : σ) : Except PyError α := (p.run.eval S store).1

/-- All calls are made and the function returns, or it ends with the exception of a call, which is
the last one. -/
def MadeInOrder (p : Publish α) (store : σ) (calls : List RegistryCall) (a : α) : Prop :=
  (outcome S p store = .ok a ∧ pushed S p store = calls) ∨
    ∃ e before c after, calls = before ++ c :: after ∧ outcome S p store = .error e ∧
      pushed S p store = before ++ [c] ∧ (p.run.calls S store).getLast? = some ⟨c, .error e⟩

theorem pushAll_madeInOrder (calls : List RegistryCall) (a : α) (store : σ) :
    MadeInOrder S (pushAll calls a) store calls a := by
  induction calls generalizing store with
  | nil => exact .inl ⟨rfl, rfl⟩
  | cons c calls ih =>
    have hpush : (Publish.push c).run.eval S store = S.perform store c := rfl
    have hcalls := Process.calls_run_bind S (Publish.push c) (fun _ => pushAll calls a) store
    have heval := Process.eval_run_bind S (Publish.push c) (fun _ => pushAll calls a) store
    rw [hpush] at hcalls heval
    have hown : (Publish.push c).run.calls S store = [⟨c, (S.perform store c).1⟩] := rfl
    rw [hown] at hcalls
    cases hanswer : S.perform store c with
    | mk answer left =>
      rw [hanswer] at hcalls heval
      cases answer with
      | error e =>
        refine .inr ⟨e, [], c, calls, rfl, ?_, ?_, ?_⟩
        · exact congrArg Prod.fst heval
        · exact congrArg (List.map (·.1)) hcalls
        · exact (congrArg List.getLast? hcalls).trans rfl
      | ok u =>
        have hall : (pushAll (c :: calls) a).run.calls S store =
            ⟨c, .ok u⟩ :: (pushAll calls a).run.calls S left := hcalls
        have hpushed : pushed S (pushAll (c :: calls) a) store =
            c :: pushed S (pushAll calls a) left := by rw [pushed, hall, List.map_cons, pushed]
        have houtcome : outcome S (pushAll (c :: calls) a) store =
            outcome S (pushAll calls a) left := congrArg Prod.fst heval
        rcases ih left with ⟨hok, hrest⟩ | ⟨e, before, c', after, rfl, herror, hrest, hlast⟩
        · exact .inl ⟨houtcome.trans hok, by rw [hpushed, hrest]⟩
        · refine .inr ⟨e, c :: before, c', after, rfl, houtcome.trans herror, ?_, ?_⟩
          · rw [hpushed, hrest, List.cons_append]
          · rw [hall, List.getLast?_cons, hlast]
            rfl

/-- The documents hold the digests and sizes: that of the uncompressed content as the only ID of a
layer, and those of the layer and of the config in the manifest. -/
structure Described (lib : OciLibraries) (content layer config manifest : Bytes) : Prop where
  diffIds : ∃ doc rootfs, IsDocument config doc ∧ doc.field "rootfs".toList = some rootfs ∧
    rootfs.field "diff_ids".toList = some (.list [.text (digestOf lib content).toList])
  layerEntry : ∃ doc entry, IsDocument manifest doc ∧
    doc.field "layers".toList = some (.list [entry]) ∧
    entry.field "digest".toList = some (.text (digestOf lib layer).toList) ∧
    entry.field "size".toList = some (.int layer.length)
  configEntry : ∃ doc entry, IsDocument manifest doc ∧ doc.field "config".toList = some entry ∧
    entry.field "digest".toList = some (.text (digestOf lib config).toList) ∧
    entry.field "size".toList = some (.int config.length)

theorem exists_config (architecture : OciArchitecture) (os : OperatingSystem)
    (timestamp diffId : String) :
    ∃ config doc rootfs,
      dumpDataclass (imageConfig architecture os timestamp [diffId]) = .ok config ∧
      IsDocument config doc ∧ doc.field "rootfs".toList = some rootfs ∧
      rootfs.field "diff_ids".toList = some (.list [.text diffId.toList]) := by
  obtain ⟨config, hconfig, hdoc⟩ :=
    isDocument_dump (v := imageConfig architecture os timestamp [diffId]) rfl rfl
  exact ⟨config, _, _, hconfig, hdoc, rfl, rfl⟩

theorem exists_manifest (configSize : ℕ) (configDigest : String) (layerSize : ℕ)
    (layerDigest : String) :
    ∃ manifest doc layer config,
      dumpDataclass (imageManifest configSize configDigest layerSize layerDigest) = .ok manifest ∧
      IsDocument manifest doc ∧ doc.field "layers".toList = some (.list [layer]) ∧
      (layer.field "digest".toList = some (.text layerDigest.toList) ∧
        layer.field "size".toList = some (.int layerSize)) ∧
      doc.field "config".toList = some config ∧
      config.field "digest".toList = some (.text configDigest.toList) ∧
      config.field "size".toList = some (.int configSize) := by
  obtain ⟨manifest, hmanifest, hdoc⟩ :=
    isDocument_dump (v := imageManifest configSize configDigest layerSize layerDigest) rfl rfl
  exact ⟨manifest, _, _, _, hmanifest, hdoc, rfl, ⟨rfl, rfl⟩, rfl, rfl, rfl⟩

variable (store : σ)

/-- However the content is read, the layer is pushed with its digest and its length, and a config
and a manifest that describe it, as long as the registry accepts the calls. -/
theorem layer_described {content : Bytes} (reading : Reading content) (imageReference : String)
    (architecture : OciArchitecture) (os : OperatingSystem) (additionalTags : List String)
    (timestamp : String) :
    match lib.normaliseImageReference imageReference with
    | .ok reference => ∃ config manifest,
        Described lib content (layerFile lib reading) config manifest ∧
        MadeInOrder S (publishContainerImageFromTarfile lib reading.reads imageReference architecture
          os additionalTags timestamp) store
          (registryCalls lib reference additionalTags (layerFile lib reading) config manifest)
          (digestOf lib manifest, manifest.length)
    | .error e => pushed S (publishContainerImageFromTarfile lib reading.reads imageReference
        architecture os additionalTags timestamp) store = [] ∧
          outcome S (publishContainerImageFromTarfile lib reading.reads imageReference
            architecture os additionalTags timestamp) store = .error e := by
  cases hreference : lib.normaliseImageReference imageReference with
  | error e =>
    dsimp only
    rw [publishContainerImageFromTarfile, hreference]
    exact ⟨rfl, rfl⟩
  | ok reference =>
    obtain ⟨layer, hlayer, htracks⟩ := writeLayer_reading lib reading
    have hid : "sha256:" ++ lib.sha256.result layer.uncompressedHash = digestOf lib content := by
      rw [htracks.uncompressedHash]
      rfl
    have hdigest : "sha256:" ++ lib.sha256.result layer.compressedHash =
        digestOf lib (layerFile lib reading) := by
      rw [htracks.compressedHash]
      rfl
    have hdata : (layer.gzipFile.seek 0).read = layerFile lib reading := by
      rw [htracks.gzipFile]
      rfl
    obtain ⟨config, doc, rootfs, hconfig, hdoc, hrootfs, hids⟩ :=
      exists_config architecture os timestamp (digestOf lib content)
    obtain ⟨manifest, doc', layerEntry, configEntry, hmanifest, hdoc', hlayers, hlayerEntry,
      hconfigs, hconfigEntry⟩ := exists_manifest config.length (digestOf lib config)
        (layerFile lib reading).length (digestOf lib (layerFile lib reading))
    have hrun := publish_run additionalTags hreference hlayer
      (hid ▸ hconfig) (by rw [htracks.length, hdigest]; exact hmanifest)
    rw [hdigest, htracks.length, hdata] at hrun
    refine ⟨config, manifest, ⟨⟨doc, rootfs, hdoc, hrootfs, hids⟩,
      ⟨doc', layerEntry, hdoc', hlayers, hlayerEntry⟩,
      ⟨doc', configEntry, hdoc', hconfigs, hconfigEntry⟩⟩, ?_⟩
    rw [hrun]
    exact pushAll_madeInOrder S _ _ store

/-! ### The references -/

/-- The manifest with this digest is under all requested references, and no manifest is under
another one. -/
structure TagsPublished (lib : OciLibraries) (reference : String) (additionalTags : List String)
    (digest : String) (calls : List RegistryCall) : Prop where
  requested : ∀ ref ∈ imageReferences reference additionalTags,
    ∃ manifest, .putManifest ref manifest ∈ calls ∧ digestOf lib manifest = digest
  noOther : ∀ ref manifest, .putManifest ref manifest ∈ calls →
    ref ∈ imageReferences reference additionalTags

/-- A function that returns has pushed the layer, the config, and its manifest under one
reference. -/
theorem pushed_of_outcome {tarFile : List (Except PyError Bytes)} {imageReference reference : String}
    {architecture : OciArchitecture} {os : OperatingSystem} {additionalTags : List String}
    {timestamp : String} {result : String × ℕ}
    (hreference : lib.normaliseImageReference imageReference = .ok reference)
    (h : outcome S (publishContainerImageFromTarfile lib tarFile imageReference architecture os
      additionalTags timestamp) store = .ok result) :
    ∃ layerDigest n data configDigest m config manifest,
      result.1 = digestOf lib manifest ∧
      pushed S (publishContainerImageFromTarfile lib tarFile imageReference architecture os
        additionalTags timestamp) store =
          .putBlob reference layerDigest n data :: .putBlob reference configDigest m config ::
            List.replicate (imageReferences reference additionalTags).length
              (.putManifest reference manifest) := by
  cases hlayer : writeLayer lib tarFile with
  | error e =>
    rw [publishContainerImageFromTarfile, hreference, hlayer] at h
    exact nomatch h
  | ok layer =>
    obtain ⟨config, _, _, hconfig, -⟩ := exists_config architecture os timestamp
      ("sha256:" ++ lib.sha256.result layer.uncompressedHash)
    obtain ⟨manifest, _, _, _, hmanifest, -⟩ := exists_manifest config.length (digestOf lib config)
      layer.length ("sha256:" ++ lib.sha256.result layer.compressedHash)
    have hrun := publish_run additionalTags hreference hlayer hconfig hmanifest
    rw [hrun] at h
    rw [hrun]
    rcases pushAll_madeInOrder S _ _ store with ⟨hok, hpushed⟩ | ⟨e, _, _, _, _, herror, -⟩
    · obtain rfl := Except.ok.inj (hok.symm.trans h)
      exact ⟨_, _, _, _, _, _, manifest, rfl, hpushed⟩
    · exact nomatch herror.symm.trans h

/-- It has put no manifest under another reference. -/
theorem reference_of_putManifest {tarFile : List (Except PyError Bytes)}
    {imageReference reference ref : String} {architecture : OciArchitecture} {os : OperatingSystem}
    {additionalTags : List String} {timestamp : String} {result : String × ℕ} {manifest : Bytes}
    (hreference : lib.normaliseImageReference imageReference = .ok reference)
    (h : outcome S (publishContainerImageFromTarfile lib tarFile imageReference architecture os
      additionalTags timestamp) store = .ok result)
    (hmem : .putManifest ref manifest ∈ pushed S (publishContainerImageFromTarfile lib tarFile
      imageReference architecture os additionalTags timestamp) store) : ref = reference := by
  obtain ⟨_, _, _, _, _, _, _, -, hpushed⟩ := pushed_of_outcome S store hreference h
  rw [hpushed] at hmem
  simp only [List.mem_cons, List.mem_replicate, reduceCtorEq, false_or] at hmem
  exact (RegistryCall.putManifest.inj hmem.2).1

/-- The manifest is published under all requested references exactly if they are one. -/
theorem tagsPublished_iff {tarFile : List (Except PyError Bytes)} {imageReference reference : String}
    {architecture : OciArchitecture} {os : OperatingSystem} {additionalTags : List String}
    {timestamp : String} {result : String × ℕ}
    (hreference : lib.normaliseImageReference imageReference = .ok reference)
    (h : outcome S (publishContainerImageFromTarfile lib tarFile imageReference architecture os
      additionalTags timestamp) store = .ok result) :
    TagsPublished lib reference additionalTags result.1
        (pushed S (publishContainerImageFromTarfile lib tarFile imageReference architecture os
          additionalTags timestamp) store) ↔
      ∀ tag ∈ additionalTags, imageName reference ++ ":" ++ tag = reference := by
  constructor
  · intro hpublished tag htag
    obtain ⟨other, hmem, -⟩ := hpublished.requested (imageName reference ++ ":" ++ tag)
      (List.mem_cons_of_mem _ (List.mem_map.2 ⟨tag, htag, rfl⟩))
    exact reference_of_putManifest S store hreference h hmem
  · intro hsame
    obtain ⟨_, _, _, _, _, _, manifest, hdigest, hpushed⟩ := pushed_of_outcome S store hreference h
    refine ⟨fun ref href => ⟨manifest, ?_, hdigest.symm⟩, fun ref other hmem => ?_⟩
    · have heq : ref = reference := by
        rcases List.mem_cons.1 href with rfl | href
        · rfl
        · obtain ⟨tag, htag, rfl⟩ := List.mem_map.1 href
          exact hsame tag htag
      rw [hpushed, heq]
      simp [imageReferences]
    · rw [reference_of_putManifest S store hreference h hmem]
      exact List.mem_cons_self ..

end Calls

/-! ## An image with two tags -/

/-- `sha256` on the four texts of the case. -/
def caseSha256 (data : Bytes) : String :=
  if data = "rootfs".toUTF8.data.toList then
    "3c47ef972d531d524daa15fa33dd885dd23de6221bbd10a29eb42ecfcf2ef422"
  else if data.length = 36 then "45e44146e2ecbde33f876dae35502c2b3bdba22b237d20655e421eac48c7e847"
  else if data.length = 661 then "5d763c1a84b8daa3f482c75e2cd8b6a32e0bd3e7b64f742afc937ffe95bec62e"
  else "a947e5cea90244e956cd58174a75931045dfbb99f940fce5bd59a965ad3ae7a5"

/-- Little-endian bytes of a word. -/
def littleEndian (n : ℕ) : Bytes :=
  [n, n / 256, n / 65536, n / 16777216].map fun m => UInt8.ofNat (m % 256)

def caseLibraries : OciLibraries where
  sha256 := .collecting caseSha256
  gzipHeader fname := [31, 139, 8, 8, 0, 0, 0, 0, 2, 255] ++ fname.toUTF8.data.toList ++ [0]
  gzipFooter crc32 uncompressedSize := littleEndian crc32.toNat ++ littleEndian uncompressedSize
  zlibCompressobj :=
    { State := Unit
      init := ()
      compress := fun _ _ => ((), [])
      flush := fun _ => [43, 202, 207, 47, 73, 43, 6, 0] }
  normaliseImageReference := .ok

/-- A registry that accepts everything. -/
def caseRegistry : Service ociClient Unit := ⟨fun _ _ => (.ok (), ())⟩

def casePublish (additionalTags : List String) : Publish (String × ℕ) :=
  publishContainerImageFromTarfile caseLibraries [.ok "rootfs".toUTF8.data.toList]
    "eu.gcr.io/gardenlinux:576.1" .amd64 .linux additionalTags "2022-06-01T12:00:00Z"

/-- Without another tag the manifest is published as requested. -/
theorem tagsPublished_iff_oneTag :
    ∃ result, outcome caseRegistry (casePublish []) () = .ok result ∧
      TagsPublished caseLibraries "eu.gcr.io/gardenlinux:576.1" [] result.1
        (pushed caseRegistry (casePublish []) ()) :=
  ⟨(_, _), rfl, (tagsPublished_iff caseRegistry () rfl rfl).2
    fun _ htag => absurd htag List.not_mem_nil⟩

/-- The manifest is not published under the other tag. -/
theorem tagsPublished_fails :
    ¬ ∀ (lib : OciLibraries) (S : Service ociClient Unit) (tarFile : List (Except PyError Bytes))
        (imageReference reference : String) (architecture : OciArchitecture) (os : OperatingSystem)
        (additionalTags : List String) (timestamp : String) (result : String × ℕ),
      lib.normaliseImageReference imageReference = .ok reference →
      outcome S (publishContainerImageFromTarfile lib tarFile imageReference architecture os
        additionalTags timestamp) () = .ok result →
      TagsPublished lib reference additionalTags result.1
        (pushed S (publishContainerImageFromTarfile lib tarFile imageReference architecture os
          additionalTags timestamp) ()) := by
  intro h
  have hpublished := h caseLibraries caseRegistry [.ok "rootfs".toUTF8.data.toList]
    "eu.gcr.io/gardenlinux:576.1" "eu.gcr.io/gardenlinux:576.1" .amd64 .linux ["latest"]
    "2022-06-01T12:00:00Z" (_, _) rfl rfl
  obtain ⟨manifest, hmem, -⟩ := hpublished.requested "eu.gcr.io/gardenlinux:latest" (by decide +kernel)
  obtain ⟨result, hresult⟩ :
      ∃ result, outcome caseRegistry (casePublish ["latest"]) () = .ok result := ⟨(_, _), rfl⟩
  exact absurd (reference_of_putManifest caseRegistry () rfl hresult hmem) (by decide)

end Glci
