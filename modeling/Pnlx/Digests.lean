import Pnlx.Host

/-!
# Digests of texts

The repository names markets, batches and owners by texts and puts their digests on chain and into
commitments. A market has two: its key on chain (`marketKey`) and the digest that positions and
conditional orders commit to (`marketDigest`).
-/

namespace Pnlx

def utf8 (text : String) : Bytes := text.toUTF8.data.toList

/-- `hash_fields` on normalised fields, as a word. -/
def hashFields (H : Host) (domain : String) (fields : List String) : BytesN32 :=
  H.sha256 (utf8 ("pnlx:" ++ domain ++ ":" ++ "|".intercalate fields))

/-- `digest_to_field` on a text, as a field element. -/
def digestToField (H : Host) (text : String) : Fr := toField (H.sha256 (utf8 text))

/-- `hash_fields("market-id", [market_id])`: the key of a market on chain. -/
def marketKey (H : Host) (marketId : String) : BytesN32 := hashFields H "market-id" [marketId]

/-- `digest_to_field("market:" + market_id)`: the market in a commitment. -/
def marketDigest (H : Host) (marketId : String) : Fr := digestToField H ("market:" ++ marketId)

end Pnlx
