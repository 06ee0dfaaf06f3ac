import Rechnernetze.Http.HttpRequest
import Rechnernetze.Lib.Text
import Rechnernetze.Lib.Runs
import Rechnernetze.Lib.StopAndWait
import Rechnernetze.Bft.DatagramTheorems
import Rechnernetze.Bft.Network
import Rechnernetze.Bft.ServerTheorems
import Rechnernetze.Bft.ClientTheorems
import Rechnernetze.Bft.NetworkTheorems
import Rechnernetze.Bft.Transfer
import Rechnernetze.Bft.TransferServer
import Rechnernetze.Bft.TransferTheorems
import Rechnernetze.Bft.Progress
import Rechnernetze.Bft.Storage
import Rechnernetze.Bft.FileErrors
import Rechnernetze.Bft.LossTolerance
import Rechnernetze.Bft.AbortAgreement
import Rechnernetze.Bft.StaleDatagrams
import Rechnernetze.Bft.Amplification
import Rechnernetze.Http.HttpRequestTheorems
import Rechnernetze.Http.RequestAgreement
import Rechnernetze.Http.Connection
import Rechnernetze.Http.HttpResponseTheorems
import Rechnernetze.Http.ResponseRoundTrip
import Rechnernetze.Http.ConnectionTheorems
import Rechnernetze.Http.ResponseFactory
import Rechnernetze.Lib.LexicalPath
import Rechnernetze.Http.DocumentRoot
import Rechnernetze.Bft.UploadConfinement
import Rechnernetze.Http.FaithfulResponse
import Rechnernetze.Http.HandlerThreads
import Rechnernetze.Http.Shutdown
import Rechnernetze.Bft.PayloadReads
import Rechnernetze.Bft.BurstErrors
import Rechnernetze.Bft.Throughput
import Rechnernetze.Bft.RetryAccounting
import Rechnernetze.Bft.Retransmissions
import Rechnernetze.Http.SlowSending
import Rechnernetze.Http.Reception
import Rechnernetze.Http.UrlTheorems
import Rechnernetze.Http.RequestGrammar
import Rechnernetze.Http.BodyInfluence
import Rechnernetze.Http.HandlerList
import Rechnernetze.Lib.CyclicCode
import Rechnernetze.Bft.ErrorDetection
import Rechnernetze.Http.ShutdownProgress
import Rechnernetze.Http.Framing
import Rechnernetze.Http.Download
import Rechnernetze.Bft.StorageFrame
import Rechnernetze.Bft.Interrupts
import Rechnernetze.Bft.InterruptTheorems
import Rechnernetze.Bft.Recovery
import Rechnernetze.Http.UrlScan
import Rechnernetze.Http.RequestScan
import Rechnernetze.Bft.Blocking
import Rechnernetze.Bft.AllUploads
import Rechnernetze.Bft.Conservation
import Rechnernetze.Bft.Stalling
import Rechnernetze.Bft.Duplicates
import Rechnernetze.Http.ContentTypes
import Rechnernetze.Bft.Survival
import Rechnernetze.Bft.Turns
import Rechnernetze.Bft.AbortInTurn
