import ObbyIRCd.Lib.Bytes

/-!
# The database files of `src/unrealdb.c`

A database file is a sequence of integers and strings, in a plain format or in an encrypted one.
The plain format is a 32-byte header and the bytes of the records. The encrypted format is a header
with the key derivation's parameters, and a stream of blocks: the writer collects
`UNREALDB_CRYPT_FILE_CHUNK_SIZE` bytes before it encrypts a block, and closes the file with a last,
shorter block; the reader decrypts block by block and keeps what a request leaves over.

Argon2 and the secretstream of libsodium are not part of this repository. They are the fields of
`Crypto`, with what the code relies on: the sizes of a header and of a block, and that pulling what
was pushed, block by block, gives the messages back. A file being written goes to a disk that takes
`free` more bytes, so that writes can fail. Machine words are little-endian, as on the hosts where
`bswap` is not compiled in.
-/

namespace ObbyIRCd.Database

/-- `UNREALDB_CRYPT_FILE_CHUNK_SIZE`. -/
def cryptFileChunkSize : ℕ := 4096

/-- `crypto_secretstream_xchacha20poly1305_ABYTES`. -/
def aBytes : ℕ := 17

/-- `crypto_secretstream_xchacha20poly1305_HEADERBYTES`. -/
def headerBytes : ℕ := 24

/-- The tags of the secretstream that the code uses: 0 for a block and `TAG_FINAL` for the last. -/
inductive Tag
  | message
  | final
deriving DecidableEq, Repr

/-- The primitives of Argon2 and libsodium. -/
structure Crypto where
  State : Type
  /-- `argon2id_hash_raw`: time, memory and parallelism costs, password, salt, key length. -/
  argon2id : ℕ → ℕ → ℕ → List UInt8 → List UInt8 → ℕ → Option (List UInt8)
  /-- `init_push`: the key and the random bytes it draws give a state and a header. -/
  initPush : List UInt8 → List UInt8 → State × List UInt8
  /-- `init_pull`: the header and the key. -/
  initPull : List UInt8 → List UInt8 → Option State
  /-- `push`: encrypt a block. -/
  push : State → List UInt8 → Tag → State × List UInt8
  /-- `pull`: decrypt a block. -/
  pull : State → List UInt8 → Option (State × List UInt8 × Tag)
  header_length : ∀ key random, (initPush key random).2.length = headerBytes
  /-- A block is `ABYTES` longer than its message. -/
  push_length : ∀ s m t, (push s m t).2.length = m.length + aBytes
  /-- A message is `ABYTES` shorter than its block. -/
  pull_length : ∀ s c s' m t, pull s c = some (s', m, t) → m.length + aBytes = c.length
  /-- The pulling state is at the block that the pushing state encrypts next. -/
  Synced : State → State → Prop
  initPull_initPush : ∀ key random, ∃ s, initPull (initPush key random).2 key = some s ∧
    Synced (initPush key random).1 s
  /-- Pulling what was pushed gives the message and stays in step. -/
  pull_push : ∀ s s' m t, Synced s s' →
    ∃ s'', pull s' (push s m t).2 = some (s'', m, t) ∧ Synced (push s m t).1 s''

/-- `UnrealDBError`, without `UNREALDB_ERROR_SUCCESS`. -/
inductive UnrealDBError
  | fileNotFound
  | crypted
  | notCrypted
  | header
  | secret
  | password
  | io
  | api
  | internal
deriving DecidableEq, Repr

/-- An error as `unrealdb_set_error` records it: the code and the string. -/
structure DbError where
  /-- `error_code`. -/
  code : UnrealDBError
  /-- `error_string`. -/
  text : String
deriving DecidableEq, Repr

/-- A stdio file: what was written and how much more the disk takes, what is left to read and
whether a read has hit the end. -/
structure File where
  written : List UInt8
  free : ℕ
  rest : List UInt8
  /-- `feof`. -/
  eof : Bool

/-- `fwrite`: the number of bytes written. -/
def File.fwrite (fd : File) (bytes : List UInt8) : ℕ × File :=
  let n := min bytes.length fd.free
  (n, { fd with written := fd.written ++ bytes.take n, free := fd.free - n })

/-- `fread` of up to `n` bytes. -/
def File.fread (fd : File) (n : ℕ) : List UInt8 × File :=
  (fd.rest.take n, { fd with rest := fd.rest.drop n, eof := fd.eof || decide (fd.rest.length < n) })

/-- `UnrealDBConfig`. The lengths of `salt` and `key` are fields of their own, as in the file. -/
structure UnrealDBConfig where
  /-- Key derivation function. -/
  kdf : UInt16
  tCost : UInt16
  /-- Memory cost, in number of bit shifts. -/
  mCost : UInt16
  pCost : UInt16
  saltlen : UInt16
  salt : List UInt8
  cipher : UInt16
  keylen : UInt16
  /-- The key used for encryption and decryption. -/
  key : List UInt8
deriving DecidableEq

/-- `UNREALDB_KDF_ARGON2ID`. -/
def kdfArgon2id : UInt16 := 1
/-- `UNREALDB_CIPHER_XCHACHA20`. -/
def cipherXchacha20 : UInt16 := 1

/-- `unrealdb_config_identical`, which does not look at the key. -/
def unrealdbConfigIdentical (one two : UnrealDBConfig) : Bool :=
  one.kdf == two.kdf && one.tCost == two.tCost && one.mCost == two.mCost &&
    one.pCost == two.pCost && one.saltlen == two.saltlen && one.salt == two.salt &&
    one.cipher == two.cipher && one.keylen == two.keylen

/-- What `argon2id_hash_raw` makes of a configuration and a password. -/
def Crypto.kdf (C : Crypto) (cfg : UnrealDBConfig) (password : CStr) : Option (List UInt8) :=
  C.argon2id cfg.tCost.toNat (1 <<< cfg.mCost.toNat) cfg.pCost.toNat password.bytes cfg.salt
    cfg.keylen.toNat

/-- A configuration that a file of this secret can have: known algorithms, the lengths in agreement
and below what the reader refuses, and the key that the password gives. -/
structure UnrealDBConfig.Valid (C : Crypto) (password : CStr) (cfg : UnrealDBConfig) : Prop where
  /-- The only key derivation function. -/
  kdf_eq : cfg.kdf = kdfArgon2id
  cipher_eq : cfg.cipher = cipherXchacha20
  /-- `saltlen` is the length of the salt. -/
  saltlen_eq : cfg.saltlen.toNat = cfg.salt.length
  /-- A salt that the reader accepts. -/
  saltlen_le : cfg.saltlen.toNat ≤ 1024
  /-- A key that the reader accepts. -/
  keylen_le : cfg.keylen.toNat ≤ 1024
  key_eq : C.kdf cfg password = some cfg.key

def SecretCache (C : Crypto) (password : CStr) : Type :=
  { cfg : UnrealDBConfig // cfg.Valid C password }

/-- A `secret` block: its password and the configurations that Argon2 has been run for, latest
first. -/
structure Secret (C : Crypto) where
  name : String
  password : CStr
  cache : List (SecretCache C password)

/-- `islower`, `isupper` and `isdigit` of the server's own table. -/
def isLower (c : UInt8) : Bool := 97 ≤ c && c ≤ 122
@[inherit_doc isLower]
def isUpper (c : UInt8) : Bool := 65 ≤ c && c ≤ 90
@[inherit_doc isLower]
def isDigit (c : UInt8) : Bool := 48 ≤ c && c ≤ 57

/-- `valid_secret_password`: `check_password_strength` with a minimum of 10, strict. -/
def validSecretPassword (pass : CStr) : Bool :=
  10 ≤ pass.strlen && pass.bytes.any isLower && pass.bytes.any isUpper && pass.bytes.any isDigit

/-- `UnrealDBMode`. -/
inductive Mode
  | read
  | write
deriving DecidableEq, Repr

/-- An open database, `struct UnrealDB`. The first `buflen` bytes of `buf` are in use; the stream's
state is there when the file is crypted. -/
structure UnrealDB (C : Crypto) where
  fd : File
  mode : Mode
  /-- The secretstream of a crypted file. -/
  st : Option C.State
  creationtime : UInt64
  /-- The bytes in use of the buffer. -/
  buf : List UInt8
  /-- The first error; it blocks further reads and writes. -/
  error : Option DbError

section
variable {C : Crypto}

variable (c : UnrealDB C)

/-- `unrealdb_set_error`. -/
def UnrealDB.setError (code : UnrealDBError) (text : String) : UnrealDB C :=
  { c with error := some ⟨code, text⟩ }

/-- The text of a write that failed for want of space. -/
def writeError : String := "Write error: No space left on device"

def UnrealDB.pushBlock (st : C.State) (block : List UInt8) (tag : Tag) : Bool × UnrealDB C :=
  let out := (C.push st block tag).2
  let c' := { c with st := some (C.push st block tag).1, fd := (c.fd.fwrite out).2 }
  if (c.fd.fwrite out).1 ≠ out.length then (false, c'.setError .io writeError) else (true, c')

/-- The loop of `unrealdb_write` on a crypted file: `buf` is what is left to write. -/
def unrealdbWriteLoop (c : UnrealDB C) (st : C.State) (buf : List UInt8) : Bool × UnrealDB C :=
  if c.buf.length + buf.length < cryptFileChunkSize then
    (true, { c with buf := c.buf ++ buf })
  else
    let avBytes := cryptFileChunkSize - c.buf.length
    let rest := buf.drop avBytes
    match c.pushBlock st (c.buf ++ buf.take avBytes) .message with
    | (false, c') => (false, c')
    | (true, c') =>
      -- The buffer is flushed; go on while there is something left.
      if rest = [] then (true, { c' with buf := [] })
      else unrealdbWriteLoop { c' with buf := [] } ((C.push st (c.buf ++ buf.take avBytes) .message).1)
        rest
termination_by (buf.length, c.buf.length)
decreasing_by
  simp only [List.length_drop, List.length_nil, cryptFileChunkSize] at *
  omega

/-- `unrealdb_write`. -/
def unrealdbWrite (wbuf : List UInt8) : Bool × UnrealDB C :=
  if c.error.isSome then (false, c)
  else if c.mode ≠ .write then
    (false, c.setError .api "Write operation requested on a file opened for reading")
  else
    match c.st with
    | none =>
      let fd := (c.fd.fwrite wbuf).2
      if (c.fd.fwrite wbuf).1 ≠ wbuf.length then (false, { c with fd }.setError .io writeError)
      else (true, { c with fd })
    | some st => unrealdbWriteLoop c st wbuf

/-- `unrealdb_write_int64`. -/
def unrealdbWriteInt64 (t : UInt64) : Bool × UnrealDB C :=
  unrealdbWrite c (leBytes 8 t.toNat)

/-- `unrealdb_write_int32`. -/
def unrealdbWriteInt32 (t : UInt32) : Bool × UnrealDB C :=
  unrealdbWrite c (leBytes 4 t.toNat)

/-- `unrealdb_write_int16`. -/
def unrealdbWriteInt16 (t : UInt16) : Bool × UnrealDB C :=
  unrealdbWrite c (leBytes 2 t.toNat)

/-- `unrealdb_write_char`. -/
def unrealdbWriteChar (t : UInt8) : Bool × UnrealDB C :=
  unrealdbWrite c [t]

/-- `int stringlen = strlen(x)`: the length, as a 32-bit signed integer. -/
def stringlen (x : CStr) : ℤ := (x.strlen : ℤ).bmod (2 ^ 32)

/-- `unrealdb_write_str`: the length as 16 bits, `0xffff` for `NULL`, and the bytes. -/
def unrealdbWriteStr (x : Option CStr) : Bool × UnrealDB C :=
  match x with
  | none => unrealdbWriteInt16 c 0xffff
  | some x =>
    if 0xffff ≤ stringlen x then
      (false, c.setError .api
        ("unrealdb_write_str(): string has length " ++ toString (stringlen x) ++
          ", while maximum allowed is 65534"))
    else
      let len : UInt16 := UInt16.ofInt (stringlen x)
      match unrealdbWriteInt16 c len with
      | (false, c') => (false, c')
      | (true, c') =>
        if 0 < len ∧ len < 0xffff then unrealdbWrite c' (x.bytes.take len.toNat) else (true, c')

/-- `unrealdb_close` of a file opened for writing: the file's bytes, or nothing if the last block
could not be written. -/
def unrealdbClose : Option (List UInt8) :=
  match c.st with
  | some st =>
    match c.pushBlock st c.buf .final with
    | (false, _) => none
    | (true, c') => some c'.fd.written
  | none => some c.fd.written

/-- The loop of `unrealdb_read` on a crypted file, with an empty buffer: `acc` has been read and
`len` more bytes are wanted. -/
def unrealdbReadLoop (c : UnrealDB C) (st : C.State) (acc : List UInt8) (len : ℕ) :
    Option (List UInt8) × UnrealDB C :=
  let fd := (c.fd.fread (cryptFileChunkSize + aBytes)).2
  if _hin : (c.fd.fread (cryptFileChunkSize + aBytes)).1 = [] then
    (none, { c with fd }.setError .io "Short read - premature end of file??")
  else
    match C.pull st (c.fd.fread (cryptFileChunkSize + aBytes)).1 with
    | none =>
      (none, { c with fd }.setError .io "Failed to decrypt a block - either corrupt or wrong key")
    | some (st', out, _) =>
      if len > out.length then
        if fd.eof then
          (none, { c with fd, st := some st' }.setError .io "Short read - premature end of file?")
        else unrealdbReadLoop { c with fd, st := some st' } st' (acc ++ out) (len - out.length)
      else
        (some (acc ++ out.take len), { c with fd, st := some st', buf := out.drop len })
termination_by c.fd.rest.length
decreasing_by
  have hpos : 0 < c.fd.rest.length := by
    refine List.length_pos_iff.mpr fun h => _hin ?_
    simp [File.fread, h]
  simp only [File.fread, List.length_drop, cryptFileChunkSize, aBytes]
  omega

/-- `unrealdb_read` of `len` bytes. -/
def unrealdbRead (len : ℕ) : Option (List UInt8) × UnrealDB C :=
  if c.error.isSome then (none, c)
  else if c.mode ≠ .read then
    (none, c.setError .api "Read operation requested on a file opened for writing")
  else
    match c.st with
    | none =>
      let buf := (c.fd.fread len).1
      let fd := (c.fd.fread len).2
      if buf.length < len then
        (none, { c with fd }.setError .io
          ("Short read - premature end of file (want:" ++ toString len ++ ", got:" ++
            toString buf.length ++ " bytes)"))
      else (some buf, { c with fd })
    | some st =>
      -- First what the buffer has, then block by block.
      let avBytes := min c.buf.length len
      let c' := { c with buf := c.buf.drop avBytes }
      if c.buf ≠ [] ∧ len - avBytes = 0 then (some (c.buf.take avBytes), c')
      else unrealdbReadLoop c' st (c.buf.take avBytes) (len - avBytes)

/-- `unrealdb_read_int64`. -/
def unrealdbReadInt64 : Option UInt64 × UnrealDB C :=
  match unrealdbRead c 8 with
  | (none, c') => (none, c')
  | (some b, c') => (some (UInt64.ofNat (leNat b)), c')

/-- `unrealdb_read_int32`. -/
def unrealdbReadInt32 : Option UInt32 × UnrealDB C :=
  match unrealdbRead c 4 with
  | (none, c') => (none, c')
  | (some b, c') => (some (UInt32.ofNat (leNat b)), c')

/-- `unrealdb_read_int16`. -/
def unrealdbReadInt16 : Option UInt16 × UnrealDB C :=
  match unrealdbRead c 2 with
  | (none, c') => (none, c')
  | (some b, c') => (some (UInt16.ofNat (leNat b)), c')

/-- `unrealdb_read_char`. -/
def unrealdbReadChar : Option UInt8 × UnrealDB C :=
  match unrealdbRead c 1 with
  | (none, c') => (none, c')
  | (some b, c') => (some (b.headD 0), c')

/-- `unrealdb_read_str`. The inner option is the `NULL` pointer. A length above 10000 is refused,
without an error being recorded. -/
def unrealdbReadStr : Option (Option CStr) × UnrealDB C :=
  match unrealdbReadInt16 c with
  | (none, c') => (none, c')
  | (some len, c') =>
    if len = 0xffff then (some none, c')
    else if len = 0 then (some (some CStr.empty), c')
    else if len > 10000 then (none, c')
    else
      match unrealdbRead c' len.toNat with
      | (none, c'') => (none, c'')
      | (some b, c'') => (some (some (CStr.ofBuffer b)), c'')

end

end ObbyIRCd.Database
