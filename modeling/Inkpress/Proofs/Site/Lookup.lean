import Inkpress.Proofs.Site.Picture

namespace Inkpress

namespace Store

variable {p : Pool} {t : Tables}

end Store

namespace Site

open Text (Numeral.Writes)

def Address.octets (segment : List Char) : List UInt8 :=
  decodeOctets (String.ofList segment).toUTF8.toList

variable {segment : List Char} {n : Int}

def Response.dressed (r : Response) (origin id : String) : Response :=
  ((r.header ("access-control-allow-origin", allowedOrigin origin)).header
    ("vary", "origin, access-control-request-method, access-control-request-headers")).header
    ("x-request-id", id)

theorem handle_fst (b : Blog) (origin newId : String) (r : Request) :
    (handle b origin newId r).1 =
      (respond b r).1.dressed origin ((r.header? "x-request-id").getD newId) :=
  rfl

theorem respond_get (b : Blog) {path : List Char} {route : Route}
    (hroute : Route.ofPath? path = some route) (query : Option (List Char))
    (headers : List (String × String)) :
    (respond b (.get path query headers)).1 = (routeResponse b ⟨path, query⟩ route).1 := by
  have hmethod : ¬"GET" = "OPTIONS" := by decide
  simp only [respond, Request.get, hmethod, if_false, hroute, counted_fst, routed, if_true]

def postNotFound : Response :=
  .ofBody 404 "application/json" "\x7b\"error\":\"Blog post not found\"\x7d".toUTF8

section

variable {b : Blog} {t : Store.Tables}

end

end Site

end Inkpress
