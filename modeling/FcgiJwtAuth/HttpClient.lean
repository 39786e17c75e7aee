import FcgiJwtAuth.CLang.Bytes

/-!
# The HTTP client

`http_post` over libcurl. It answers 0 for every HTTP status; the body is whatever the write
callback has collected.
-/

namespace FcgiJwtAuth

open CLang

/-- `MAX_RESPONSE_SIZE`. -/
def maxResponseSize : UInt64 := 1024 * 1024

/-- A call of the write callback: the memory it is given, and whether `realloc` succeeds. -/
structure Piece where
  ptr : Bytes
  size : UInt64
  nmemb : UInt64
  allocated : Bool

/-- `write_callback`: the count it returns, and the buffer. -/
def writeCallback (buf : Bytes) (piece : Piece) : UInt64 × Bytes :=
  let bytes := piece.size * piece.nmemb
  if bytes = 0 then (0, buf)
  else if bytes > maxResponseSize - UInt64.ofNat buf.length then (0, buf)
  else if piece.allocated then (bytes, buf ++ piece.ptr.take bytes.toNat)
  else (0, buf)

/-- What libcurl does during one `http_post`. -/
structure CurlPost where
  /-- `curl_easy_init` succeeds. -/
  handle : Bool
  /-- `curl_slist_append` succeeds. -/
  headerList : Bool
  /-- The calls it makes of the write callback, as long as each accepts its piece. -/
  pieces : List Piece
  /-- `curl_easy_perform` answers `CURLE_OK` when every piece was accepted. -/
  performed : Bool
  /-- The content type, if `curl_easy_getinfo` knows one. -/
  contentType : Option CStr
  /-- The HTTP status. -/
  httpStatus : ℤ
  /-- `strdup` of the content type succeeds. -/
  duplicated : Bool

/-- `HttpResponse`. -/
structure HttpResponse where
  contentType : Option CStr
  data : Bytes

/-- The pieces in order; `none` when the callback turns one down, which fails the transfer. -/
def transfer : List Piece → Bytes → Option Bytes
  | [], buf => some buf
  | piece :: pieces, buf =>
    let r := writeCallback buf piece
    if r.1 = piece.size * piece.nmemb then transfer pieces r.2 else none

/-- `http_post`; `none` is its `-1`. -/
def httpPost (curl : CurlPost) : Option HttpResponse :=
  if curl.handle && curl.headerList then
    match transfer curl.pieces [] with
    | none => none
    | some data =>
      if curl.performed then
        match curl.contentType with
        | none => some ⟨none, data⟩
        | some contentType =>
          if curl.httpStatus = 200 then
            if curl.duplicated then some ⟨some contentType, data⟩ else none
          else some ⟨none, data⟩
      else none
  else none

end FcgiJwtAuth
