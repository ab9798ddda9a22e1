import LspServerTokio.Discrimination
import LspServerTokio.CodecStream
import LspServerTokio.Cancellation
import LspServerTokio.Handshake
import LspServerTokio.SlotOwnership
import LspServerTokio.Closing
import LspServerTokio.Draining
import LspServerTokio.Correlation
import LspServerTokio.ResponseRouting
import LspServerTokio.HeaderLeniency
import LspServerTokio.DecodeSafety
import LspServerTokio.EndOfInput
import LspServerTokio.ResponseGrammar
import LspServerTokio.IdSequence
import LspServerTokio.SingleSender
import LspServerTokio.LifecycleOrder
import LspServerTokio.CancelWire
import LspServerTokio.SendRequest
import LspServerTokio.FormatterClient
