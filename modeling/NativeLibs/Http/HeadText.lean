/-
This file reads the text `str()` prints for HTTP/1 messages back with the
reference parser of message heads. The text of a header list ends with a line end
of its own, behind which the formatters of messages print the empty line. A header
list without fields is such a line end alone, so that a request without headers
has one line end too many. The formatter of responses has a case for that.
-/

import NativeLibs.Http.Message
import NativeLibs.Library.MessageHead

namespace NativeLibs.Http

open Library.Chunked Library.MessageHead

/-! ### Header lists -/

/-- The names and values of a header list. -/
def Headers.pairs (headers : Headers) : List (Bytes × Bytes) :=
  headers.fields.map fun field => (field.name, field.value)

theorem map_fieldLine_pairs (headers : Headers) :
    headers.pairs.map fieldLine = headers.fields.map Headers.fieldStr := by
  rw [Headers.pairs, List.map_map]
  refine List.map_congr_left fun field _ => ?_
  exact (List.append_assoc field.name (ascii ": ") field.value).symm

theorem headers_str_trailerBytes {headers : Headers} (nonempty : headers.fields ≠ []) :
    headers.str ++ crlf = trailerBytes (headers.fields.map Headers.fieldStr) := by
  have filled : headers.fields.map Headers.fieldStr ≠ [] := mt List.map_eq_nil_iff.mp nonempty
  rw [Headers.str, intercalate_append crlf filled]
  rfl

/-- The lines of the headers and an empty line. -/
def Headers.lines (headers : Headers) : Bytes :=
  (headers.fields.flatMap fun field => field.name ++ ascii ": " ++ field.value ++ crlf) ++ crlf

theorem headers_lines_trailerBytes (headers : Headers) :
    headers.lines = trailerBytes (headers.fields.map Headers.fieldStr) := by
  rw [Headers.lines, trailerBytes, List.flatMap_map]
  rfl

theorem append_lines (startLine : Bytes) (headers : Headers) :
    startLine ++ crlf ++ headers.lines = headBytes startLine headers.pairs := by
  rw [headBytes, map_fieldLine_pairs, headers_lines_trailerBytes, List.append_assoc]
  rfl

theorem length_headers_str (headers : Headers) :
    (headers.str ++ crlf).length =
      headers.lines.length + if headers.fields = [] then 2 else 0 := by
  by_cases empty : headers.fields = []
  · simp [Headers.str, Headers.lines, empty, crlf]
  · rw [headers_str_trailerBytes empty, headers_lines_trailerBytes, if_neg empty, Nat.add_zero]

/-- A text without line ends and without blanks at its ends. -/
structure Trimmed (text : Bytes) : Prop where
  clean : CleanLine text
  first : ∀ byte ∈ text.head?, isBlank byte = false
  last : ∀ byte ∈ text.getLast?, isBlank byte = false

/-- A header with a name that is not empty and has no colon, and with a name and a value that are
trimmed. -/
structure Header.Plain (field : Header) : Prop where
  nonempty : field.name ≠ []
  noColon : 58 ∉ field.name
  name : Trimmed field.name
  value : Trimmed field.value

theorem writable_of_plain {headers : Headers} (plain : ∀ field ∈ headers.fields, field.Plain) :
    ∀ pair ∈ headers.pairs, WritableField pair := by
  rw [Headers.pairs, List.forall_mem_map]
  intro field member
  obtain ⟨nonempty, noColon, name, value⟩ := plain field member
  exact ⟨⟨nonempty, noColon, value.first, value.last⟩, name.clean, value.clean⟩

/-! ### Versions and numbers -/

/-- Neither a space nor a part of a line end. -/
def SolidText (text : Bytes) : Prop := CleanLine text ∧ 32 ∉ text

instance (text : Bytes) : Decidable (SolidText text) :=
  inferInstanceAs (Decidable (CleanLine text ∧ 32 ∉ text))

theorem solidText_append {first second : Bytes} (one : SolidText first) (two : SolidText second) :
    SolidText (first ++ second) := by
  refine ⟨cleanLine_append one.1 two.1, ?_⟩
  rw [List.mem_append, not_or]
  exact ⟨one.2, two.2⟩

theorem solidText_formatNat (number : Nat) : SolidText (formatNat 10 number) := by
  have digits := formatNat_digits 10 number (by decide) (by decide)
  refine ⟨⟨fun member => ?_, fun member => ?_⟩, fun member => ?_⟩
  · exact absurd (digits 13 member) (by decide)
  · exact absurd (digits 10 member) (by decide)
  · exact absurd (digits 32 member) (by decide)

theorem solidText_formatInt (number : Int) : SolidText (formatInt number) := by
  cases number with
  | ofNat number => exact solidText_formatNat number
  | negSucc number =>
    have sign : SolidText [45] := by decide
    exact solidText_append sign (solidText_formatNat (number + 1))

theorem solidText_version (version : Version) : SolidText version.str := by
  have name : SolidText (ascii "HTTP/") := by decide
  have dot : SolidText (ascii ".") := by decide
  rw [Version.str]
  exact solidText_append (solidText_append (solidText_append name (solidText_formatNat _)) dot)
    (solidText_formatNat _)

theorem code_lt_http20 {version : Version} (major : versionGetMajor version = 1) :
    version.code < http20.code := by
  have shifted := congrArg UInt32.toNat major
  rw [versionGetMajor, UInt32.toNat_shiftRight, show (8 : UInt32).toNat % 32 = 8 from rfl,
    Nat.shiftRight_eq_div_pow] at shifted
  rw [UInt32.lt_iff_toNat_lt, show http20.code.toNat = 512 from rfl]
  have one : (1 : UInt32).toNat = 1 := rfl
  omega

/-! ### Requests -/

/-- The request line. -/
def Request.startLine (request : Request) : Bytes :=
  request.method ++ ([32] ++ (request.path ++ ([32] ++ request.version.str)))

/-- The text of a request is its start line, the lines of its headers and an empty line, and a
parser reads the same request from it and leaves nothing. -/
structure Request.WellFramed (request : Request) : Prop where
  text : request.str = request.startLine ++ crlf ++ request.headers.lines
  read : ∃ head, parse request.str = some head ∧
    requestLine head.startLine = some ⟨request.method, request.path, request.version.str⟩ ∧
    head.fields = request.headers.pairs ∧ head.rest = []

/-- An HTTP/1 request with a method and a path that have no spaces, and plain headers. -/
structure Request.Http1 (request : Request) : Prop where
  major : versionGetMajor request.version = 1
  method : request.method ≠ [] ∧ 32 ∉ request.method
  path : request.path ≠ [] ∧ 32 ∉ request.path
  headers : ∀ field ∈ request.headers.fields, field.Plain

/-- A request of one of the two versions the formatter knows, with a method and a path on one line,
and with a header. -/
structure Request.Framable (request : Request) : Prop where
  version : request.version = http10 ∨ request.version = http11
  method : CleanLine request.method
  path : CleanLine request.path
  fields : request.headers.fields ≠ []

theorem request_str_of_version {request : Request} (http1 : request.Http1)
    (version : request.version = http10 ∨ request.version = http11) :
    request.str = request.startLine ++ crlf ++ (request.headers.str ++ crlf) := by
  have known : request.version = http09 ∨ request.version = http10 ∨ request.version = http11 :=
    .inr version
  simp only [Request.str, if_pos known, orElse, if_neg http1.method.1, if_neg http1.path.1,
    Request.startLine, List.append_assoc]
  rfl

theorem request_str_of_otherVersion {request : Request} (http1 : request.Http1)
    (other : ¬(request.version = http10 ∨ request.version = http11)) :
    request.str = request.method ++ (ascii " " ++ (request.headers.str ++ crlf)) := by
  have major := http1.major
  have differs : ∀ version : Version, versionGetMajor version ≠ 1 → request.version ≠ version := by
    rintro version otherMajor rfl
    exact otherMajor major
  have unknown : ¬(request.version = http09 ∨ request.version = http10 ∨
      request.version = http11) := not_or.mpr ⟨differs http09 (by decide), other⟩
  have unknown2 : ¬(request.version = http20 ∨ request.version = http30) :=
    not_or.mpr ⟨differs http20 (by decide), differs http30 (by decide)⟩
  simp only [Request.str, if_neg unknown, if_neg unknown2, orElse, if_neg http1.method.1,
    List.append_assoc, List.nil_append]

theorem length_startLine (request : Request) :
    request.startLine.length =
      request.method.length + request.path.length + request.version.str.length + 2 := by
  simp only [Request.startLine, List.length_append, List.length_singleton]
  omega

theorem cleanLine_startLine {request : Request} (method : CleanLine request.method)
    (path : CleanLine request.path) : CleanLine request.startLine := by
  have space : CleanLine [32] := by decide
  exact cleanLine_append method (cleanLine_append space (cleanLine_append path
    (cleanLine_append space (solidText_version request.version).1)))

theorem Request.Http1.requestLine_startLine {request : Request} (http1 : request.Http1) :
    requestLine request.startLine =
      some ⟨request.method, request.path, request.version.str⟩ :=
  requestLine_join http1.method.1 http1.path.1
    ⟨http1.method.2, http1.path.2, (solidText_version request.version).2⟩

theorem Request.Framable.wellFramed {request : Request} (framable : request.Framable)
    (http1 : request.Http1) : request.WellFramed := by
  have text : request.str = request.startLine ++ crlf ++ request.headers.lines := by
    rw [request_str_of_version http1 framable.version, headers_str_trailerBytes framable.fields,
      headers_lines_trailerBytes]
  have clean := cleanLine_startLine framable.method framable.path
  have parsed := parse_headBytes clean (writable_of_plain http1.headers) []
  rw [List.append_nil, ← append_lines, ← text] at parsed
  exact ⟨text, _, parsed, http1.requestLine_startLine, rfl, rfl⟩

/-- A version that the formatter does not know makes the text too short, and a header list without
fields makes it too long. -/
theorem Request.WellFramed.framable {request : Request} (framed : request.WellFramed)
    (http1 : request.Http1) : request.Framable := by
  have lengths := congrArg List.length framed.text
  have headersLength := length_headers_str request.headers
  rw [List.length_append, List.length_append, length_startLine] at lengths
  have version : request.version = http10 ∨ request.version = http11 := by
    by_contra other
    have slack : (if request.headers.fields = [] then 2 else 0) ≤ 2 := by
      split
      · exact le_rfl
      · exact Nat.zero_le 2
    have printed : 0 < request.version.str.length := by simp [Version.str, ascii]
    rw [request_str_of_otherVersion http1 other, List.length_append, List.length_append,
      headersLength] at lengths
    have space : (ascii " ").length = 1 := rfl
    have lineEnd : crlf.length = 2 := rfl
    omega
  have fields : request.headers.fields ≠ [] := by
    intro empty
    rw [request_str_of_version http1 version, List.length_append, List.length_append,
      headersLength, length_startLine, if_pos empty] at lengths
    omega
  obtain ⟨head, parsed, startLine, -, -⟩ := framed.read
  have clean := cleanLine_of_parse parsed
  rw [of_requestLine startLine] at clean
  refine ⟨version, ⟨fun member => clean.1 ?_, fun member => clean.2 ?_⟩,
    ⟨fun member => clean.1 ?_, fun member => clean.2 ?_⟩, fields⟩
  · exact List.mem_append_left _ member
  · exact List.mem_append_left _ member
  · exact List.mem_append_right _ (List.mem_append_right _ (List.mem_append_left _ member))
  · exact List.mem_append_right _ (List.mem_append_right _ (List.mem_append_left _ member))

/-! ### Responses -/

/-- The status line, without a space behind the code if there is no status string. -/
def Response.startLine (response : Response) : Bytes :=
  response.version.str ++ ([32] ++ (formatInt response.statusCode ++
    if response.statusString = [] then [] else [32] ++ response.statusString))

/-- The text of a response is its start line, the lines of its headers and an empty line, and a
parser reads the same response from it and leaves nothing. -/
structure Response.WellFramed (response : Response) : Prop where
  text : response.str = response.startLine ++ crlf ++ response.headers.lines
  read : ∃ head, parse response.str = some head ∧
    statusLine head.startLine =
      some ⟨response.version.str, formatInt response.statusCode, response.statusString⟩ ∧
    head.fields = response.headers.pairs ∧ head.rest = []

/-- An HTTP/1 response with a trimmed status string and plain headers. -/
structure Response.Http1 (response : Response) : Prop where
  major : versionGetMajor response.version = 1
  statusString : Trimmed response.statusString
  headers : ∀ field ∈ response.headers.fields, field.Plain

theorem Response.Http1.wellFramed {response : Response} (http1 : response.Http1) :
    response.WellFramed := by
  have below := code_lt_http20 http1.major
  have text : response.str = response.startLine ++ crlf ++ response.headers.lines := by
    have startLine : response.version.str ++ ascii " " ++ formatInt response.statusCode ++
        (if response.statusString = [] then [] else ascii " ") ++ response.statusString ++ crlf =
        response.startLine ++ crlf := by
      by_cases empty : response.statusString = []
      · simp [Response.startLine, empty, ascii]
      · simp [Response.startLine, empty, ascii]
    simp only [Response.str, if_pos below, startLine]
    by_cases empty : response.headers.fields = []
    · have noFields : response.headers.length = 0 := by rw [Headers.length, empty, List.length_nil]
      rw [if_pos noFields, Headers.lines, empty]
      rfl
    · have someFields : response.headers.length ≠ 0 := mt List.eq_nil_of_length_eq_zero empty
      rw [if_neg someFields, List.append_assoc, headers_str_trailerBytes empty,
        headers_lines_trailerBytes]
  have version := solidText_version response.version
  have statusCode := solidText_formatInt response.statusCode
  have space : CleanLine [32] := by decide
  have reason : CleanLine
      (if response.statusString = [] then [] else [32] ++ response.statusString) := by
    split
    · exact ⟨List.not_mem_nil, List.not_mem_nil⟩
    · exact cleanLine_append space http1.statusString.clean
  have clean : CleanLine response.startLine :=
    cleanLine_append version.1 (cleanLine_append space (cleanLine_append statusCode.1 reason))
  have parsed := parse_headBytes clean (writable_of_plain http1.headers) []
  rw [List.append_nil, ← append_lines, ← text] at parsed
  exact ⟨text, _, parsed, statusLine_join ⟨version.2, statusCode.2⟩ response.statusString, rfl, rfl⟩

/-- Every HTTP/1 response with plain headers is well framed. A request is well framed exactly when
it has a header, its version is one the formatter knows, and its method and path stand on one
line. -/
theorem headText_wellFramed_iff (request : Request) (requestHttp1 : request.Http1)
    (response : Response) (responseHttp1 : response.Http1) :
    (request.WellFramed ↔ request.Framable) ∧ response.WellFramed :=
  ⟨⟨fun framed => framed.framable requestHttp1, fun framable => framable.wellFramed requestHttp1⟩,
    responseHttp1.wellFramed⟩

/-- A request without headers. -/
def bareRequest : Request := { method := ascii "GET", path := ascii "/" }

/-- Its text has a second empty line, which a parser leaves. -/
theorem bareRequest_overlong :
    bareRequest.str = ascii "GET / HTTP/1.1\r\n\r\n\r\n" ∧
      parse bareRequest.str = some ⟨ascii "GET / HTTP/1.1", [], crlf⟩ :=
  ⟨rfl, rfl⟩

/-- A request with one header. -/
def hostRequest : Request :=
  { bareRequest with headers := { fields := [⟨ascii "Host", ascii "a b"⟩] } }

theorem hostRequest_http1 : hostRequest.Http1 := by
  refine ⟨by decide, by decide, by decide, fun field member => ?_⟩
  rw [List.mem_singleton.mp member]
  refine ⟨by decide, by decide, ⟨?_, ?_, ?_⟩, ⟨?_, ?_, ?_⟩⟩
  · decide
  · simp [ascii, isBlank]
  · simp [ascii, isBlank]
  · decide
  · simp [ascii, isBlank]
  · simp [ascii, isBlank]

theorem noContent_http1 : ({ statusCode := 204 } : Response).Http1 := by
  refine ⟨by decide, ⟨?_, ?_, ?_⟩, List.forall_mem_nil _⟩
  · exact ⟨List.not_mem_nil, List.not_mem_nil⟩
  · exact fun byte impossible => (Option.not_mem_none byte impossible).elim
  · exact fun byte impossible => (Option.not_mem_none byte impossible).elim

/-- A request with a header, and a response without one. -/
theorem headText_wellFramed_iff_samples :
    hostRequest.WellFramed ∧ ({ statusCode := 204 } : Response).WellFramed := by
  obtain ⟨request, response⟩ :=
    headText_wellFramed_iff hostRequest hostRequest_http1 _ noContent_http1
  refine ⟨request.mpr ⟨.inr rfl, ?_, ?_, List.cons_ne_nil _ _⟩, response⟩
  · decide
  · decide

end NativeLibs.Http
