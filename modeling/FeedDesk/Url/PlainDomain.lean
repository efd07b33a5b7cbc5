import FeedDesk.Url.Host
import FeedDesk.Url.Punycode

/-!
# Plain domain names

The mapping of domain names as far as it needs no tables of characters. ASCII names are written in
lower case. Names with other characters have no place in it, and a label that announces Punycode
stays as it is if it can be decoded: whether names may have the characters that it stands for is
not asked.
-/
namespace FeedDesk.Url

/-- The ASCII characters that a domain name may not have. -/
def isForbidden (c : Char) : Bool :=
  c ≤ ' ' || c == '#' || c == '/' || c == ':' || c == '<' || c == '>' || c == '?' || c == '@'
    || c == '[' || c == '\\' || c == ']' || c == '^' || c == '|' || c == '%' || c == '\x7f'

def plainName? (bytes : List UInt8) : Option (List Char) := do
  let text ← String.fromUTF8? ⟨bytes.toArray⟩
  let name := text.toList.map Char.toLower
  guard (name.all fun c => c ≤ '\x7f' && !isForbidden c)
  guard ((Host.splitAt '.' name).all fun l => !Punycode.isAnnounced l || Punycode.isReadable l)
  pure name

instance plainDomains : DomainMapping := ⟨plainName?⟩

end FeedDesk.Url
