/-!
# Physical addresses

The machine addresses memory by 32-bit words that wrap. A segment is 64 KiB and a page 256
bytes; `segmentAddress` turns a segment selector and an offset into a physical address, and
`Address.page` and `pageBase` move between addresses and page numbers.
-/

namespace Multicore

/-- A physical byte address. Its arithmetic wraps in 32 bits. -/
abbrev Address := UInt32

/-- Bytes in a page. -/
def pageSize : UInt32 := 256

/-- Bytes in a segment. -/
def segmentSize : UInt32 := 0x10000

/-- Pages in a segment. -/
def pagesPerSegment : Nat := 256

namespace Address

/-- The number of the page that holds the address. -/
def page (a : Address) : UInt32 := a / pageSize

/-- The even address at or just below this one, which names the halfword that holds it. -/
def halfword (a : Address) : Address := a - a % 2

/-- The segment that holds the address. -/
def segment (a : Address) : UInt32 := a / segmentSize

end Address

/-- The address of `offset` within a segment. -/
def segmentAddress (segment offset : UInt32) : Address := segment * segmentSize + offset

/-- The first address of a page. -/
def pageBase (page : UInt32) : Address := page * pageSize

end Multicore
