import Continuum.Library.Outcome
import Continuum.Library.StreamDecoder

/-!
# Reading a member of an archive

`_read_zip_member_exact` on an archive that is a list of bytes. The inflater is any decoder of the
format, and the hash any function of the bytes that were digested.
-/
namespace Continuum.Bundle

open Library

abbrev Bytes := List UInt8

/-! ### Integers and checksums -/

/-- `struct.unpack` of a little-endian unsigned integer. -/
def littleEndian : Bytes → ℕ
  | [] => 0
  | byte :: rest => byte.toNat + 256 * littleEndian rest

def crcStep (crc : UInt32) : UInt32 :=
  if crc &&& 1 = 1 then (crc >>> 1) ^^^ 0xEDB88320 else crc >>> 1

def crcByte (crc : UInt32) (byte : UInt8) : UInt32 := Nat.iterate crcStep 8 (crc ^^^ byte.toUInt32)

/-- `zlib.crc32(data, crc)`. -/
def crc32 (data : Bytes) (crc : UInt32) : UInt32 := ~~~ (data.foldl crcByte (~~~ crc))

theorem crc32_nil (crc : UInt32) : crc32 [] crc = crc := by simp [crc32]

theorem crc32_append (first second : Bytes) (crc : UInt32) :
    crc32 (first ++ second) crc = crc32 second (crc32 first crc) := by
  simp [crc32, List.foldl_append]

/-! ### The model -/

/-- The entries of a `ZipInfo` that are read. -/
structure ZipInfo where
  headerOffset : ℕ
  compressType : ℕ
  compressSize : ℕ
  fileSize : ℕ
  crc : ℕ

def zipStored : ℕ := 0

def zipDeflated : ℕ := 8

def localSignature : ℕ := 0x04034B50

def chunkSize : ℕ := 1024 * 1024

/-- What is returned: the bytes when they are collected, their hash, how many were hashed, the
error. -/
structure Read where
  data : Option Bytes
  hash : Option String
  size : ℕ
  error : Option String

/-- The digest, the checksum and the number of the bytes consumed so far. -/
structure Sink where
  digested : Bytes
  crc : UInt32
  size : ℕ

def Sink.start : Sink := ⟨[], 0, 0⟩

/-- `consume`, which fails where the output exceeds the declared size. -/
def consume (declared : ℕ) (sink : Sink) (output : Bytes) : Except (String × ℕ) Sink :=
  if output = [] then .ok sink
  else if declared < sink.size + output.length then .error ("uncompressed_size_exceeded", sink.size)
  else .ok ⟨sink.digested ++ output, crc32 output sink.crc, sink.size + output.length⟩

/-- The bytes after the local header, or the error. -/
def seekMember (archive : Bytes) (info : ZipInfo) : Except String Bytes :=
  let header := (archive.drop info.headerOffset).take 30
  if header.length ≠ 30 then .error "member_seek_failed:EOFError"
  else if littleEndian (header.take 4) ≠ localSignature then .error "local_header_invalid"
  else .ok (archive.drop (info.headerOffset + 30 + littleEndian ((header.drop 26).take 2) +
    littleEndian ((header.drop 28).take 2)))

/-- `handle.read(min(1024 * 1024, remaining))`. -/
def readChunk (rest : Bytes) (remaining : ℕ) : Bytes := rest.take (min chunkSize remaining)

/-- The loop over the chunks of a stored member. -/
def readStored (declared : ℕ) : ℕ → Bytes → ℕ → Sink → Except (String × ℕ) Sink
  | _, _, 0, sink => .ok sink
  | 0, _, _ + 1, sink => .error ("out_of_fuel", sink.size)
  | fuel + 1, rest, remaining + 1, sink =>
    let chunk := readChunk rest (remaining + 1)
    if chunk = [] then .error ("compressed_data_truncated", sink.size)
    else (consume declared sink chunk).bind fun sink =>
      readStored declared fuel (rest.drop chunk.length) (remaining + 1 - chunk.length) sink

section Inflate

variable {format : Format UInt8} (decoder : Decoder format)

/-- The loop over what the inflater left of a chunk. -/
def inflateChunk (declared : ℕ) :
    ℕ → Bytes → decoder.State → Sink → Except (String × ℕ) (decoder.State × Sink)
  | _, [], inflater, sink => .ok (inflater, sink)
  | 0, _ :: _, _, sink => .error ("out_of_fuel", sink.size)
  | fuel + 1, byte :: more, inflater, sink =>
    let pending := byte :: more
    match decoder.decompress inflater pending chunkSize with
    | none => .error ("decompression_failed:error", sink.size)
    | some (inflater, output, tail) => (consume declared sink output).bind fun sink =>
      if decoder.eof inflater then
        if tail ≠ [] then .error ("compressed_stream_trailing_data", sink.size)
        else .ok (inflater, sink)
      else if tail ≠ [] ∧ tail.length = pending.length ∧ output = [] then
        .error ("decompressor_stalled", sink.size)
      else inflateChunk declared fuel tail inflater sink

/-- The loop over the chunks of a deflated member. -/
def readDeflated (declared : ℕ) :
    ℕ → Bytes → ℕ → decoder.State → Sink → Except (String × ℕ) (decoder.State × Sink)
  | _, _, 0, inflater, sink => .ok (inflater, sink)
  | 0, _, _ + 1, _, sink => .error ("out_of_fuel", sink.size)
  | fuel + 1, rest, remaining + 1, inflater, sink =>
    let chunk := readChunk rest (remaining + 1)
    if chunk = [] then .error ("compressed_data_truncated", sink.size)
    else if decoder.eof inflater then .error ("compressed_stream_trailing_data", sink.size)
    else (inflateChunk decoder declared (chunk.length + (declared - sink.size)) chunk inflater
      sink).bind fun (inflater, sink) =>
        let remaining := remaining + 1 - chunk.length
        if decoder.eof inflater ∧ remaining ≠ 0 then
          .error ("compressed_stream_trailing_data", sink.size)
        else readDeflated declared fuel (rest.drop chunk.length) remaining inflater sink

/-- What follows the loop of a deflated member. The inflater has nothing left over here. -/
def finishDeflated (declared : ℕ) (inflater : decoder.State) (sink : Sink) :
    Except (String × ℕ) Sink :=
  if decoder.eof inflater then consume declared sink (decoder.flush inflater)
  else .error ("compressed_stream_not_terminated", sink.size)

/-- What is consumed of a member. -/
def readMember (info : ZipInfo) (rest : Bytes) : Except (String × ℕ) Sink :=
  if info.compressType = zipStored then
    readStored info.fileSize info.compressSize rest info.compressSize Sink.start
  else if info.compressType = zipDeflated then
    (readDeflated decoder info.fileSize info.compressSize rest info.compressSize decoder.start
      Sink.start).bind fun (inflater, sink) => finishDeflated decoder info.fileSize inflater sink
  else .error ("compression_method_not_supported", 0)

/-- `_read_zip_member_exact`, without a budget. -/
def readZipMemberExact (sha256 : Bytes → String) (archive : Bytes) (info : ZipInfo)
    (collect : Bool) : Read :=
  match seekMember archive info with
  | .error error => ⟨none, none, 0, some error⟩
  | .ok rest =>
    match readMember decoder info rest with
    | .error (error, size) => ⟨none, none, size, some error⟩
    | .ok sink =>
      if sink.size ≠ info.fileSize then
        ⟨none, some (sha256 sink.digested), sink.size, some "uncompressed_size_mismatch"⟩
      else if sink.crc.toNat ≠ info.crc then
        ⟨none, some (sha256 sink.digested), sink.size, some "crc_mismatch"⟩
      else
        ⟨if collect then some sink.digested else none, some (sha256 sink.digested), sink.size, none⟩

end Inflate

end Continuum.Bundle
