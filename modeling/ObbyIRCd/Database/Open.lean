import ObbyIRCd.Database.Model

/-!
# Opening a database file

`unrealdb_open`, one definition for each mode. A plain file starts with a 32-byte header and the
time it was written. A crypted file starts with a 32-byte header, the parameters of the key
derivation, the salt, and the header of the secretstream; the stream itself starts with a string
that validates the key and with the time. Either secret cache saves a run of Argon2.
-/

namespace ObbyIRCd.Database

variable {C : Crypto}

/-- The 32 bytes of a file's first header: a text and zeroes. -/
def fileHeader (s : String) : List UInt8 := ascii s ++ List.replicate (32 - s.length) 0

/-- The string behind the secretstream's header, by which the reader recognises the key. -/
def cryptedNow : CStr := ⟨ascii "UnrealIRCd-DB-Crypted-Now", by decide +kernel⟩

/-- The random bytes of `unrealdb_open`: a salt, and what the secretstream draws for its header. -/
structure Random where
  salt : List UInt8
  /-- `UNREALDB_SALT_LEN`. -/
  salt_length : salt.length = 16
  /-- The bytes for `init_push`. -/
  stream : List UInt8

/-- `fwrite` calls joined by `||`: nothing if one of them is short. -/
def File.fwriteAll (fd : File) : List (List UInt8) → Option File
  | [] => some fd
  | bytes :: rest =>
    let (n, fd') := fd.fwrite bytes
    if n ≠ bytes.length then none else fd'.fwriteAll rest

/-- An `fread` that has to get all `n` bytes. -/
def File.freadExact (fd : File) (n : ℕ) : Option (List UInt8 × File) :=
  let (buf, fd') := fd.fread n
  if buf.length ≠ n then none else some (buf, fd')

/-- An `fread` of a `uint16_t`. -/
def File.freadUInt16 (fd : File) : Option (UInt16 × File) :=
  (fd.freadExact 2).map fun (buf, fd') => (UInt16.ofNat (leNat buf), fd')

/-- The parameters in a file's header, in the order of the file. -/
def UnrealDBConfig.fields (cfg : UnrealDBConfig) : List (List UInt8) :=
  [leBytes 2 cfg.kdf.toNat, leBytes 2 cfg.tCost.toNat, leBytes 2 cfg.mCost.toNat,
    leBytes 2 cfg.pCost.toNat, leBytes 2 cfg.saltlen.toNat, cfg.salt, leBytes 2 cfg.cipher.toNat,
    leBytes 2 cfg.keylen.toNat]

variable (secr : Secret C)

/-- `find_secret_cache`. -/
def findSecretCache (cfg : UnrealDBConfig) : Option (SecretCache C secr.password) :=
  secr.cache.find? fun c => unrealdbConfigIdentical c.val cfg

/-- `unrealdb_add_to_secret_cache`. -/
def unrealdbAddToSecretCache (cfg : SecretCache C secr.password) : Secret C :=
  match findSecretCache secr cfg.val with
  | some _ => secr
  | none => { secr with cache := cfg :: secr.cache }

/-- The configuration of a file written without a cached one, before its key is derived. -/
def newConfig (salt : List UInt8) : UnrealDBConfig :=
  { kdf := kdfArgon2id, tCost := 4, mCost := 15, pCost := 2, saltlen := 16, salt,
    cipher := cipherXchacha20, keylen := 32, key := [] }

/-- The error of a key derivation that failed. -/
def argon2Error : DbError :=
  ⟨.internal, "Could not generate argon2 hash - out of memory or something weird?"⟩

/-- The configuration to write with: the first cached one, or a new one with its key derived. -/
def writeConfig (random : Random) : Except DbError (SecretCache C secr.password) :=
  match secr.cache with
  | cfg :: _ => .ok cfg
  | [] =>
    match hkey : C.kdf (newConfig random.salt) secr.password with
    | none => .error argon2Error
    | some key => .ok ⟨{ newConfig random.salt with key },
        ⟨rfl, rfl, random.salt_length.symm, (by decide : (16 : UInt16).toNat ≤ 1024),
          (by decide : (32 : UInt16).toNat ≤ 1024), hkey⟩⟩

/-- `unrealdb_open` for writing, on a disk that takes `free` bytes. -/
def unrealdbOpenWrite (secr : Option (Secret C)) (now : UInt64) (random : Random) (free : ℕ) :
    Except DbError (UnrealDB C × Option (Secret C)) :=
  let c : UnrealDB C := ⟨⟨[], free, [], false⟩, .write, none, 0, [], none⟩
  match secr with
  | none =>
    match c.fd.fwriteAll [fileHeader "UnrealIRCd-DB-v1"] with
    | none => .error ⟨.io, "Unable to write header (A1)"⟩
    | some fd =>
      match unrealdbWriteInt64 { c with fd } now with
      | (false, _) => .error ⟨.io, "Unable to write header (A1)"⟩
      | (true, c) => .ok (c, none)
  | some secr =>
    if validSecretPassword secr.password = false then
      .error ⟨.secret, "Password in secret block '" ++ secr.name ++
        "' does not meet complexity requirements"⟩
    else
      match c.fd.fwriteAll [fileHeader "UnrealIRCd-DB-Crypted-v1"] with
      | none => .error ⟨.io, "Unable to write header (1)"⟩
      | some fd =>
        match writeConfig secr random with
        | .error e => .error e
        | .ok cfg =>
          match fd.fwriteAll cfg.val.fields with
          | none => .error ⟨.io, "Unable to write header (2)"⟩
          | some fd =>
            let (st, header) := C.initPush cfg.val.key random.stream
            match fd.fwriteAll [header] with
            | none => .error ⟨.io, "Unable to write header (3)"⟩
            | some fd =>
              match unrealdbWriteStr { c with fd, st := some st } (some cryptedNow) with
              | (false, c) => .error (c.error.getD ⟨.io, writeError⟩)
              | (true, c) =>
                match unrealdbWriteInt64 c now with
                | (false, c) => .error (c.error.getD ⟨.io, writeError⟩)
                | (true, c) => .ok (c, some (unrealdbAddToSecretCache secr cfg))

/-- `fgets` with a buffer of 32 bytes: up to 31 bytes, and no further than the first newline. -/
def fgets (file : List UInt8) : List UInt8 :=
  let line := file.take 31
  line.takeWhile (· != 10) ++ (line.dropWhile (· != 10)).take 1

/-- `str_starts_with_case_sensitive` on the string in a buffer. -/
def startsWith (buf : List UInt8) (needle : String) : Bool :=
  (ascii needle).isPrefixOf (CStr.ofBuffer buf).bytes

/-- The text for a plain file of another version. -/
def unsupportedVersion : String :=
  "Unsupported version of database. Is this database perhaps created on " ++
    "a new version of UnrealIRCd and are you trying to use it on an older " ++
    "UnrealIRCd version? (Downgrading is not supported!)"

/-- `unrealdb_open` for reading without a secret. Files without a header are read from the start. -/
def unrealdbOpenReadPlain (file : List UInt8) : Except DbError (UnrealDB C) :=
  let c : UnrealDB C := ⟨⟨[], 0, file, false⟩, .read, none, 0, [], none⟩
  if file = [] then .ok c
  else if startsWith (fgets file) "UnrealIRCd-DB-Crypted" then
    .error ⟨.crypted, "file is encrypted but no password provided"⟩
  else if (CStr.ofBuffer (fgets file)).bytes = ascii "UnrealIRCd-DB-v1" then
    match unrealdbReadInt64 { c with fd := ⟨[], 0, file.drop 32, false⟩ } with
    | (none, _) => .error ⟨.header, "Header is too short (A4)"⟩
    | (some t, c) => .ok { c with creationtime := t }
  else if startsWith (fgets file) "UnrealIRCd-DB" then .error ⟨.header, unsupportedVersion⟩
  else .ok c

def readConfig (fd : File) : Except DbError (UnrealDBConfig × File) :=
  let bad : Except DbError (UnrealDBConfig × File) :=
    .error ⟨.header, "Header is corrupt/unknown/invalid"⟩
  match fd.freadUInt16 with
  | none => bad
  | some (kdf, fd) =>
  match fd.freadUInt16 with
  | none => bad
  | some (tCost, fd) =>
  match fd.freadUInt16 with
  | none => bad
  | some (mCost, fd) =>
  match fd.freadUInt16 with
  | none => bad
  | some (pCost, fd) =>
  match fd.freadUInt16 with
  | none => bad
  | some (saltlen, fd) =>
  if kdf ≠ kdfArgon2id then
    .error ⟨.header, "Header contains unknown KDF 0x" ++ String.ofList (Nat.toDigits 16 kdf.toNat)⟩
  else if saltlen.toNat > 1024 then
    .error ⟨.header, "Header is corrupt (saltlen=" ++ toString saltlen.toNat ++ ")"⟩
  else
  match fd.freadExact saltlen.toNat with
  | none => .error ⟨.header, "Header is too short (2)"⟩
  | some (salt, fd) =>
  match fd.freadUInt16 with
  | none => .error ⟨.header, "Header is corrupt/unknown/invalid (3)"⟩
  | some (cipher, fd) =>
  match fd.freadUInt16 with
  | none => .error ⟨.header, "Header is corrupt/unknown/invalid (3)"⟩
  | some (keylen, fd) =>
  if cipher ≠ cipherXchacha20 then
    .error ⟨.header, "Header contains unknown cipher 0x" ++
      String.ofList (Nat.toDigits 16 cipher.toNat)⟩
  else if keylen.toNat > 1024 then
    .error ⟨.header, "Header is corrupt (keylen=" ++ toString keylen.toNat ++ ")"⟩
  else .ok (⟨kdf, tCost, mCost, pCost, saltlen, salt, cipher, keylen, []⟩, fd)

/-- The key of a file's configuration: a cached one, or Argon2's. -/
def readKey (cfg : UnrealDBConfig) : Except DbError (List UInt8) :=
  match findSecretCache secr cfg with
  | some dbcache => .ok dbcache.val.key
  | none =>
    match C.kdf cfg secr.password with
    | none => .error argon2Error
    | some key => .ok key

/-- `unrealdb_open` for reading with a secret. The configuration goes to the secret's cache. -/
def unrealdbOpenReadCrypted (file : List UInt8) : Except DbError (UnrealDB C × UnrealDBConfig) :=
  let c : UnrealDB C := ⟨⟨[], 0, file, false⟩, .read, none, 0, [], none⟩
  if validSecretPassword secr.password = false then
    .error ⟨.secret, "Password in secret block '" ++ secr.name ++
      "' does not meet complexity requirements"⟩
  else
    match c.fd.freadExact 32 with
    | none => .error ⟨.notCrypted, "Not a crypted file (file too small)"⟩
    | some (buf, fd) =>
      if buf.take 24 ≠ ascii "UnrealIRCd-DB-Crypted-v1" then
        .error ⟨.notCrypted, "Not a crypted file"⟩
      else
        match readConfig fd with
        | .error e => .error e
        | .ok (cfg, fd) =>
          match readKey secr cfg with
          | .error e => .error e
          | .ok key =>
            match fd.freadExact headerBytes with
            | none => .error ⟨.header, "Header is too short (3)"⟩
            | some (header, fd) =>
              match C.initPull header key with
              | none => .error ⟨.password, "Crypto error - invalid password or corrupt file"⟩
              | some st =>
                match unrealdbReadStr { c with fd, st := some st } with
                | (none, _) => .error ⟨.password, "Invalid password"⟩
                | (some validate, c) =>
                  if validate ≠ some cryptedNow then .error ⟨.password, "Invalid password"⟩
                  else
                    match unrealdbReadInt64 c with
                    | (none, _) => .error ⟨.header, "Header is too short (4)"⟩
                    | (some t, c) => .ok ({ c with creationtime := t }, { cfg with key })

/-- `unrealdb_open` for reading. -/
def unrealdbOpenRead (secr : Option (Secret C)) (file : List UInt8) : Except DbError (UnrealDB C) :=
  match secr with
  | none => unrealdbOpenReadPlain file
  | some secr => (unrealdbOpenReadCrypted secr file).map Prod.fst

end ObbyIRCd.Database
