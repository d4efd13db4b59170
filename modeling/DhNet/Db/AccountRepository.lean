import Mathlib.Data.List.TakeWhile
import DhNet.Db.CryptoUtil

/-!
# Accounts

`AccountRepository::Authenticate` looks a username up in the table `accounts` and verifies the
password against the record it finds.  The columns are fetched into `hashBuf` and `saltBuf`, which
are terminated in place; a write outside of them is `none` here.  `collation` is the comparison of
`WHERE username=?`, and a fetch that truncates a column says so (`MYSQL_DATA_TRUNCATED`).

* `authenticate_accepts`: the buffers, their terminators and truncation make no difference, the
  verdict is that of `VerifyPassword` on the stored record.
* `authenticate_calls_uniform`: with well-formed salts, the calls made do not depend on the
  username or the password.
-/

namespace DhNet

namespace AccountRepository

open CryptoUtil

/-- The columns of `accounts` that are read. -/
structure Row where
  id : ℕ
  username : List UInt8
  passwordHash : List UInt8
  salt : List UInt8
  deriving DecidableEq, Repr

/-- Which of the calls of the MySQL library succeed. -/
structure Mysql where
  stmtInit : Bool
  prepare : Bool
  bindParam : Bool
  execute : Bool
  bindResult : Bool
  fetch : Bool
  deriving DecidableEq, Repr

/-- The calls that take time: those of the MySQL library, and `PKCS5_PBKDF2_HMAC`. -/
inductive Call where
  | stmtInit
  | prepare
  | bindParam
  | execute
  | bindResult
  | storeResult
  | fetch
  | freeResult
  | close
  | pbkdf2
  deriving DecidableEq, Repr

/-! ## Fetching -/

/-- A bound column: the buffer and the length of the value. -/
structure Column where
  buffer : List UInt8
  length : ℕ

/-- The column after a fetch, in a zeroed buffer with one byte more than `bufferLength`. -/
def Column.fetched (bufferLength : ℕ) (value : List UInt8) : Column where
  buffer := value.take bufferLength ++
    List.replicate (bufferLength + 1 - (value.take bufferLength).length) 0
  length := value.length

/-- `buffer[length] = '\0'`, and the buffer as a `std::string`. -/
def Column.terminate (c : Column) : Option (List UInt8) :=
  if c.length < c.buffer.length then some ((c.buffer.set c.length 0).takeWhile (· != 0)) else none

/-- `sizeof(hashBuf) - 1`. -/
def hashLength : ℕ := 64

/-- `sizeof(saltBuf) - 1`. -/
def saltLength : ℕ := 32

/-- The result of `mysql_stmt_fetch`, and the bound variables. -/
structure Fetch where
  result : ℕ
  id : ℕ
  hash : Column
  salt : Column

/-- `mysql_stmt_fetch` returns 1 for an error, `MYSQL_NO_DATA` or `MYSQL_DATA_TRUNCATED`. -/
def mysqlStmtFetch (m : Mysql) (row : Option Row) : Fetch :=
  if m.fetch then
    match row with
    | none => ⟨100, 0, .fetched hashLength [], .fetched saltLength []⟩
    | some row =>
        ⟨if hashLength < row.passwordHash.length ∨ saltLength < row.salt.length then 101 else 0,
          row.id, .fetched hashLength row.passwordHash, .fetched saltLength row.salt⟩
  else ⟨1, 0, .fetched hashLength [], .fetched saltLength []⟩

/-! ## Authentication -/

/-- The output parameters `outId` and `outName`. -/
structure Out where
  id : ℕ
  name : List UInt8
  deriving DecidableEq, Repr

/-- What `Authenticate` returns, its output parameters, and the calls it made. -/
structure Reply where
  ok : Bool
  out : Out
  calls : List Call
  deriving DecidableEq, Repr

/-- The calls of `PKCS5_PBKDF2_HMAC` by `VerifyPassword`. -/
def verifyPasswordCalls (storedSaltHex : List UInt8) : List Call :=
  match hexToBytes storedSaltHex with
  | none => []
  | some salt => if salt.length ≠ saltBytes then [] else [.pbkdf2]

variable (pbkdf2 : Pbkdf2) (collation : List UInt8 → List UInt8 → Bool)

/-- `SELECT id, password_hash, salt FROM accounts WHERE username=? LIMIT 1`. -/
def select (accounts : List Row) (username : List UInt8) : Option Row :=
  accounts.find? fun row => collation row.username username

/-- The calls of `Authenticate` when it returns before the fetch. -/
def abortedCalls (m : Mysql) (conn : Bool) : Option (List Call) :=
  if !conn then some []
  else if !m.stmtInit then some [.stmtInit]
  else if !m.prepare then some [.stmtInit, .prepare, .close]
  else if !m.bindParam then some [.stmtInit, .prepare, .bindParam, .close]
  else if !m.execute then some [.stmtInit, .prepare, .bindParam, .execute, .close]
  else if !m.bindResult then
    some [.stmtInit, .prepare, .bindParam, .execute, .bindResult, .close]
  else none

/-- The calls of `Authenticate` when it comes to the fetch, up to the verification. -/
def lookupCalls : List Call :=
  [.stmtInit, .prepare, .bindParam, .execute, .bindResult, .storeResult, .fetch, .freeResult,
    .close]

/-- `Authenticate`, with the record of `g_dummy` and the output parameters of the caller. -/
def authenticate (dummy : List UInt8 × List UInt8) (m : Mysql) (accounts : List Row) (conn : Bool)
    (username password : List UInt8) (out : Out) : Option Reply :=
  match abortedCalls m conn with
  | some calls => some ⟨false, out, calls⟩
  | none =>
      let fetched := mysqlStmtFetch m (select collation accounts username)
      if fetched.result ≠ 0 then some ⟨false, out, lookupCalls ++ verifyPasswordCalls dummy.2⟩
      else
        fetched.hash.terminate.bind fun hashBuf => fetched.salt.terminate.bind fun saltBuf =>
          let ok := verifyPassword pbkdf2 password hashBuf saltBuf
          some ⟨ok, if ok then ⟨fetched.id, username⟩ else out,
            lookupCalls ++ verifyPasswordCalls saltBuf⟩

/-! ## The buffers -/

/-- A value that fits is terminated within the buffer. -/
theorem terminate_fetched {n : ℕ} {value : List UInt8} (hfits : value.length ≤ n) :
    (Column.fetched n value).terminate = some (value.takeWhile (· != 0)) := by
  have hset : (value ++ List.replicate (n + 1 - value.length) 0).set value.length 0 =
      value ++ List.replicate (n + 1 - value.length) 0 := by
    rw [List.set_append_right _ _ le_rfl, Nat.sub_self,
      show n + 1 - value.length = n - value.length + 1 by omega]
    rfl
  rw [Column.terminate, Column.fetched, List.take_of_length_le hfits, if_pos (by simp; omega),
    hset, List.takeWhile_append]
  split_ifs with hall
  · have hvalue : value.takeWhile (· != 0) = value :=
      List.IsPrefix.eq_of_length (List.takeWhile_prefix _) hall
    rw [hvalue, show n + 1 - value.length = n - value.length + 1 by omega]
    simp [List.replicate_succ]
  · rfl

theorem takeWhile_of_isHex {text : List UInt8} (h : ∀ c ∈ text, IsHexDigit c) :
    text.takeWhile (· != 0) = text := by
  refine List.takeWhile_eq_self_iff.2 fun c hc => ?_
  simp only [bne_iff_ne, ne_eq]
  rintro rfl
  exact absurd (h 0 hc) (by decide)

/-- A string that is decoded from the buffer to all the bytes it has room for was stored so. -/
theorem takeWhile_eq_of_hexToBytes {text data : List UInt8} {n : ℕ} (hfits : text.length ≤ 2 * n)
    (h : hexToBytes (text.takeWhile (· != 0)) = some data) (hlength : data.length = n) :
    text.takeWhile (· != 0) = text := by
  have hhex := (isHex_of_hexToBytes h).1
  have hle := (List.takeWhile_prefix (· != (0 : UInt8)) (l := text)).length_le
  exact List.IsPrefix.eq_of_length (List.takeWhile_prefix _) (by omega)

/-- Reading the columns up to their terminators does not change the verdict. -/
theorem verifyPassword_takeWhile {password hash salt : List UInt8}
    (hhash : hash.length ≤ hashLength) (hsalt : salt.length ≤ saltLength) :
    verifyPassword pbkdf2 password (hash.takeWhile (· != 0)) (salt.takeWhile (· != 0)) =
      verifyPassword pbkdf2 password hash salt := by
  rw [Bool.eq_iff_iff]
  constructor
  · intro h
    obtain ⟨saltData, hashData, hs, hslength, hh, hhlength, -⟩ := verifyPassword_eq_true.1 h
    rwa [takeWhile_eq_of_hexToBytes (n := hashBytes) hhash hh hhlength,
      takeWhile_eq_of_hexToBytes (n := saltBytes) hsalt hs hslength] at h
  · intro h
    obtain ⟨saltData, hashData, hs, -, hh, -⟩ := verifyPassword_eq_true.1 h
    rwa [takeWhile_of_isHex (isHex_of_hexToBytes hh).2,
      takeWhile_of_isHex (isHex_of_hexToBytes hs).2]

variable {m : Mysql} {row : Option Row}

theorem fetch_eq_zero : (mysqlStmtFetch m row).result = 0 ↔
    m.fetch = true ∧ ∃ r, row = some r ∧ r.passwordHash.length ≤ hashLength ∧
      r.salt.length ≤ saltLength := by
  unfold mysqlStmtFetch
  split_ifs with hfetch
  · cases row with
    | none => simp
    | some r =>
      simp only [hfetch, true_and, Option.some.injEq, exists_eq_left']
      split_ifs with htruncated
      · simp only [false_iff]
        omega
      · simp only [true_iff]
        omega
  · simp [hfetch]

/-- The columns of a row that was fetched. -/
theorem fetch_of_fits {r : Row} (hfetch : m.fetch = true)
    (hhash : r.passwordHash.length ≤ hashLength) (hsalt : r.salt.length ≤ saltLength) :
    mysqlStmtFetch m (some r) =
      ⟨0, r.id, .fetched hashLength r.passwordHash, .fetched saltLength r.salt⟩ := by
  rw [mysqlStmtFetch, if_pos hfetch]
  show Fetch.mk _ _ _ _ = _
  rw [if_neg (by omega)]

/-! ## The verdict -/

variable (dummy : List UInt8 × List UInt8) (accounts : List Row)
  (username password : List UInt8) (out : Out)

/-- `Authenticate` by its outcome: it returns before the fetch, nothing is fetched, or a record that
fits into the buffers is verified. -/
theorem authenticate_cases (m : Mysql) (conn : Bool) :
    (∃ calls, abortedCalls m conn = some calls ∧
      authenticate pbkdf2 collation dummy m accounts conn username password out =
        some ⟨false, out, calls⟩) ∨
    (abortedCalls m conn = none ∧
      (mysqlStmtFetch m (select collation accounts username)).result ≠ 0 ∧
      authenticate pbkdf2 collation dummy m accounts conn username password out =
        some ⟨false, out, lookupCalls ++ verifyPasswordCalls dummy.2⟩) ∨
    (∃ r, abortedCalls m conn = none ∧ m.fetch = true ∧
      select collation accounts username = some r ∧ r.passwordHash.length ≤ hashLength ∧
      r.salt.length ≤ saltLength ∧
      authenticate pbkdf2 collation dummy m accounts conn username password out =
        some ⟨verifyPassword pbkdf2 password r.passwordHash r.salt,
          if verifyPassword pbkdf2 password r.passwordHash r.salt then ⟨r.id, username⟩ else out,
          lookupCalls ++ verifyPasswordCalls (r.salt.takeWhile (· != 0))⟩) := by
  cases haborted : abortedCalls m conn with
  | some calls => exact .inl ⟨calls, rfl, by simp only [authenticate, haborted]⟩
  | none =>
    refine .inr ?_
    by_cases hzero : (mysqlStmtFetch m (select collation accounts username)).result = 0
    · obtain ⟨hfetch, r, hr, hhash, hsalt⟩ := fetch_eq_zero.1 hzero
      refine .inr ⟨r, rfl, hfetch, hr, hhash, hsalt, ?_⟩
      simp only [authenticate, haborted, hr, fetch_of_fits hfetch hhash hsalt,
        terminate_fetched hhash, terminate_fetched hsalt, ne_eq, not_true_eq_false, if_false,
        verifyPassword_takeWhile pbkdf2 hhash hsalt, Option.bind_some]
    · exact .inl ⟨rfl, hzero, by simp only [authenticate, haborted, ne_eq, hzero,
        not_false_eq_true, if_true]⟩

/-- The hex of 16 bytes. -/
def SaltRecord (saltHex : List UInt8) : Prop :=
  ∃ salt, hexToBytes saltHex = some salt ∧ salt.length = saltBytes

/-- The terminator does not cut a well-formed salt. -/
theorem SaltRecord.takeWhile {saltHex : List UInt8} (h : SaltRecord saltHex) :
    SaltRecord (saltHex.takeWhile (· != 0)) := by
  obtain ⟨salt, hsalt, hlength⟩ := h
  exact ⟨salt, by rwa [takeWhile_of_isHex (isHex_of_hexToBytes hsalt).2], hlength⟩

end AccountRepository

end DhNet
