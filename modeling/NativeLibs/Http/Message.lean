/-
This file models the HTTP messages of `http/headers.h` and `http/headers.cpp`
that the sessions exchange with the application: the header list with its
lookups, requests and responses, and the text `str()` prints for each of them.
The iterators that only the HTTP/2 and HTTP/3 sessions use are not part of it.
-/

import NativeLibs.Text.Bytes

namespace NativeLibs.Http

/-! ### Versions -/

/-- The C++ enumeration `Version`. `make_version` casts any pair of bytes to it, so a value
is the number the enumerator stands for and not only one of the five names. -/
structure Version where
  code : UInt32
  deriving DecidableEq

def http09 : Version := ⟨0x0009⟩

def http10 : Version := ⟨0x0100⟩

def http11 : Version := ⟨0x0101⟩

def http20 : Version := ⟨0x0200⟩

def http30 : Version := ⟨0x0300⟩

/-- `version_get_major`. -/
def versionGetMajor (version : Version) : UInt32 := version.code >>> 8

/-- `version_get_minor`. -/
def versionGetMinor (version : Version) : UInt32 := version.code &&& 0xff

/-- `make_version`. -/
def makeVersion (major minor : UInt8) : Option Version :=
  let version : Version := ⟨(major.toUInt32 <<< 8) ||| minor.toUInt32⟩
  if major.toUInt32 = versionGetMajor version ∧ minor.toUInt32 = versionGetMinor version then
    some version
  else none

theorem version_code_toNat (major minor : UInt8) :
    ((major.toUInt32 <<< 8) ||| minor.toUInt32).toNat = major.toNat * 256 + minor.toNat := by
  have minorBound := minor.toNat_lt
  have majorBound := major.toNat_lt
  rw [UInt32.toNat_or, UInt32.toNat_shiftLeft, UInt8.toNat_toUInt32, UInt8.toNat_toUInt32]
  have small : major.toNat <<< 8 < 2 ^ 32 := by rw [Nat.shiftLeft_eq]; omega
  have shift : (8 : UInt32).toNat % 32 = 8 := rfl
  rw [shift, Nat.mod_eq_of_lt small, ← Nat.shiftLeft_add_eq_or_of_lt (by omega), Nat.shiftLeft_eq]

/-- A pair of bytes always survives the conversion, so the session's branch for an
unexpected version is never taken. -/
theorem makeVersion_isSome (major minor : UInt8) : (makeVersion major minor).isSome := by
  have minorBound := minor.toNat_lt
  unfold makeVersion versionGetMajor versionGetMinor
  have high : major.toUInt32 = ((major.toUInt32 <<< 8) ||| minor.toUInt32) >>> 8 := by
    apply UInt32.toNat_inj.mp
    rw [UInt32.toNat_shiftRight, version_code_toNat, show (8 : UInt32).toNat % 32 = 8 from rfl,
      Nat.shiftRight_eq_div_pow, UInt8.toNat_toUInt32]
    omega
  have low : minor.toUInt32 = ((major.toUInt32 <<< 8) ||| minor.toUInt32) &&& 0xff := by
    apply UInt32.toNat_inj.mp
    rw [UInt32.toNat_and, version_code_toNat, show (0xff : UInt32).toNat = 2 ^ 8 - 1 from rfl,
      Nat.and_two_pow_sub_one_eq_mod, UInt8.toNat_toUInt32]
    omega
  simp [← high, ← low]

/-- `fmt::formatter<Version>`. -/
def Version.str (version : Version) : Bytes :=
  ascii "HTTP/" ++ formatNat 10 (versionGetMajor version).toNat ++ ascii "." ++
    formatNat 10 (versionGetMinor version).toNat

/-! ### Headers -/

/-- `Header<std::string>`. -/
structure Header where
  name : Bytes
  value : Bytes
  deriving DecidableEq

/-- `Headers`: the fields in the order they were put, and the body flag. -/
structure Headers where
  fields : List Header := []
  hasBody : Bool := false
  deriving DecidableEq

namespace Headers

/-- `Headers::get`: the value of the first field with this name. -/
def get (headers : Headers) (name : Bytes) : Option Bytes :=
  (headers.fields.find? fun field => iequals field.name name).map Header.value

/-- `Headers::gets`. -/
def gets (headers : Headers) (name : Bytes) : Bytes := (headers.get name).getD []

/-- `Headers::put`. -/
def put (headers : Headers) (name value : Bytes) : Headers :=
  { headers with fields := headers.fields ++ [⟨name, value⟩] }

/-- `Headers::length`. -/
def length (headers : Headers) : Nat := headers.fields.length

/-- `fmt::formatter<Header>`. -/
def fieldStr (field : Header) : Bytes := field.name ++ ascii ": " ++ field.value

/-- `Headers::str`: the fields joined by line ends, and a line end after the last. -/
def str (headers : Headers) : Bytes :=
  crlf.intercalate (headers.fields.map fieldStr) ++ crlf

end Headers

theorem foldl_put_fields (fields : List (Bytes × Bytes)) (headers : Headers) :
    (fields.foldl (fun built field => built.put field.1 field.2) headers).fields =
      headers.fields ++ fields.map fun field => ⟨field.1, field.2⟩ := by
  induction fields generalizing headers with
  | nil => simp
  | cons field rest inductionHypothesis =>
    rw [List.foldl_cons, inductionHypothesis]
    simp [Headers.put]

/-! ### Requests and responses -/

structure Request where
  version : Version := http11
  method : Bytes := []
  path : Bytes := []
  scheme : Bytes := []
  authority : Bytes := []
  headers : Headers := {}
  deriving DecidableEq

/-- `value.empty() ? fallback : value`. -/
def orElse (value fallback : Bytes) : Bytes := if value = [] then fallback else value

/-- `fmt::formatter<Request>`. The branch for HTTP/2 and HTTP/3 prints the target of the
request first and then the pseudo-headers that are left. -/
def Request.str (request : Request) : Bytes :=
  let isConnect := request.method = ascii "CONNECT"
  let pseudo (name value : Bytes) : Bytes :=
    if value = [] then [] else name ++ ascii ": " ++ value ++ crlf
  let startLine :=
    if request.version = http09 ∨ request.version = http10 ∨ request.version = http11 then
      orElse request.path (ascii "*") ++ ascii " " ++ request.version.str ++ crlf
    else if request.version = http20 ∨ request.version = http30 then
      (if isConnect then orElse request.authority (ascii "<empty :authority>")
        else orElse request.path (ascii "<empty :path>")) ++
        ascii " " ++ request.version.str ++ crlf ++
        pseudo (ascii ":scheme") request.scheme ++
        (if isConnect then pseudo (ascii ":path") request.path
          else pseudo (ascii ":authority") request.authority)
    else []
  orElse request.method (ascii "OPTIONS") ++ ascii " " ++ startLine ++ request.headers.str ++ crlf

structure Response where
  version : Version := http11
  statusCode : Int := 200
  statusString : Bytes := []
  headers : Headers := {}
  deriving DecidableEq

/-- `fmt::formatter<Response>`. -/
def Response.str (response : Response) : Bytes :=
  let statusMessage := if response.version.code < http20.code then response.statusString else []
  let statusLine := response.version.str ++ ascii " " ++ formatInt response.statusCode ++
    (if statusMessage = [] then [] else ascii " ") ++ statusMessage ++ crlf
  if response.headers.length = 0 then statusLine ++ crlf
  else statusLine ++ response.headers.str ++ crlf

namespace Response

/-- `Response::Response(Version, int)`. -/
def make (version : Version) (statusCode : Int) : Response :=
  { version, statusCode,
    statusString := if http11.code < version.code then formatInt statusCode else [] }

/-- The setter `Response::version`. -/
def setVersion (response : Response) (version : Version) : Response := { response with version }

/-- The setter `Response::status_code`. -/
def setStatusCode (response : Response) (statusCode : Int) : Response :=
  { response with
    statusCode
    statusString :=
      if http11.code < response.version.code then formatInt statusCode else response.statusString }

/-- The setter `Response::status_string`. -/
def setStatusString (response : Response) (statusString : Bytes) : Response :=
  { response with statusString }

end Response

end NativeLibs.Http
