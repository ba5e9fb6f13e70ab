/-
This file holds what the sessions of HTTP/2 and HTTP/3 have in common. Both are
templates over the endpoint: a server receives requests and a client responses,
and the header callbacks of the two protocols sort a received field into the
message in the same way.
-/

import NativeLibs.Http.Message

namespace NativeLibs.Http

/-- The session type a template is instantiated with. -/
inductive Endpoint where
  | server
  | client
  deriving DecidableEq, Repr

/-- `std::conditional_t<..., Request, Response>`: what an endpoint receives. -/
def Message : Endpoint → Type
  | .server => Request
  | .client => Response

namespace Message

/-- The constructor from a version. -/
def make : (endpoint : Endpoint) → Version → Message endpoint
  | .server, version => ({ version } : Request)
  | .client, version => ({ version } : Response)

/-- `headers()`, and `into_headers`. -/
def headers : {endpoint : Endpoint} → Message endpoint → Headers
  | .server, request => Request.headers request
  | .client, response => Response.headers response

/-- A change of `headers()`. -/
def withHeaders : {endpoint : Endpoint} → Message endpoint → Headers → Message endpoint
  | .server, request, headers => ({ (request : Request) with headers } : Request)
  | .client, response, headers => ({ (response : Response) with headers } : Response)

end Message

/-! ### Pseudo-headers -/

/-- `PSEUDO_HEADER_NAME_METHOD`. -/
def pseudoHeaderNameMethod : Bytes := ascii ":method"

/-- `PSEUDO_HEADER_NAME_SCHEME`. -/
def pseudoHeaderNameScheme : Bytes := ascii ":scheme"

/-- `PSEUDO_HEADER_NAME_AUTHORITY`. -/
def pseudoHeaderNameAuthority : Bytes := ascii ":authority"

/-- `PSEUDO_HEADER_NAME_PATH`. -/
def pseudoHeaderNamePath : Bytes := ascii ":path"

/-- `PSEUDO_HEADER_NAME_STATUS`. -/
def pseudoHeaderNameStatus : Bytes := ascii ":status"

/-- The conversion of an unsigned number to `int`. -/
def intOf (number : ℕ) : ℤ := (BitVec.ofNat 32 number).toInt

/-- What the header callback of a server does with a field. -/
def Request.receive (request : Request) (name value : Bytes) : Request :=
  if name = pseudoHeaderNameMethod then { request with method := value }
  else if name = pseudoHeaderNameScheme then { request with scheme := value }
  else if name = pseudoHeaderNameAuthority then { request with authority := value }
  else if name = pseudoHeaderNamePath then { request with path := value }
  else { request with headers := request.headers.put name value }

/-- What the header callback of a client does with a field. It refuses a status that is not an
`unsigned int`. -/
def Response.receive (response : Response) (name value : Bytes) : Option Response :=
  if name = pseudoHeaderNameStatus then
    (toInteger 32 value 10).map fun code => response.setStatusCode (intOf code)
  else some { response with headers := response.headers.put name value }

/-- What a header callback does with a field, if it does not refuse it. -/
def Message.receive : {endpoint : Endpoint} → Message endpoint → Bytes → Bytes →
    Option (Message endpoint)
  | .server, request, name, value => some (Request.receive request name value)
  | .client, response, name, value => Response.receive response name value

end NativeLibs.Http
