import ZmqTest.Async.Cs
import ZmqTest.Async.Delivery
import ZmqTest.Async.Replies
import ZmqTest.Base
import ZmqTest.Buffers
import ZmqTest.Cloud.Answers
import ZmqTest.Cloud.Conservation
import ZmqTest.Cloud.Hops
import ZmqTest.Cloud.Lcflow
import ZmqTest.Cloud.Lockstep
import ZmqTest.Cloud.Moves
import ZmqTest.Cloud.Routes
import ZmqTest.Cloud.Staff
import ZmqTest.Cloud.Stateflow
import ZmqTest.Cloud.System
import ZmqTest.Dump
import ZmqTest.Envelope
import ZmqTest.Erl.Server2
import ZmqTest.Hello.Completion
import ZmqTest.Hello.Conversations
import ZmqTest.Hello.Server
import ZmqTest.Hello.System
import ZmqTest.Interrupted
import ZmqTest.Lib.Balancer
import ZmqTest.Lib.Checked
import ZmqTest.Lib.Conduit
import ZmqTest.Lib.Decimal
import ZmqTest.Lib.Delimited
import ZmqTest.Lib.Driven
import ZmqTest.Lib.Framing
import ZmqTest.Lib.Lockstep
import ZmqTest.Lib.Machine
import ZmqTest.Lib.Multipart
import ZmqTest.Lib.Network
import ZmqTest.Lib.Pool
import ZmqTest.Lib.Progress
import ZmqTest.Lib.Pubsub
import ZmqTest.Lib.Recency
import ZmqTest.Lib.Reqrep
import ZmqTest.Lib.RollCall
import ZmqTest.Lib.Rounding
import ZmqTest.Lib.Scanf
import ZmqTest.Lib.Service
import ZmqTest.Lib.StopAndWait
import ZmqTest.Loadbalance.Completion
import ZmqTest.Loadbalance.Copies
import ZmqTest.Loadbalance.Deadline
import ZmqTest.Loadbalance.Dismissal
import ZmqTest.Loadbalance.Equivalence
import ZmqTest.Loadbalance.Lbbroker
import ZmqTest.Loadbalance.Lbbroker2
import ZmqTest.Loadbalance.Liveness
import ZmqTest.Loadbalance.Liveness2
import ZmqTest.Loadbalance.Moves
import ZmqTest.Loadbalance.Progress
import ZmqTest.Loadbalance.Progress2
import ZmqTest.Loadbalance.Relation
import ZmqTest.Loadbalance.Rtreq
import ZmqTest.Loadbalance.Simulation
import ZmqTest.Loadbalance.Simulation2
import ZmqTest.Loadbalance.System
import ZmqTest.Loadbalance.Tokens
import ZmqTest.Lpp.Client
import ZmqTest.Lpp.Echo
import ZmqTest.Lpp.Executions
import ZmqTest.Lpp.Recovery
import ZmqTest.Lpp.Server
import ZmqTest.Malformed
import ZmqTest.Mdp.Attempts
import ZmqTest.Mdp.Client
import ZmqTest.Mdp.Send
import ZmqTest.Mdp.Session
import ZmqTest.Mt.Server
import ZmqTest.Ppq.Available
import ZmqTest.Ppq.Backoff
import ZmqTest.Ppq.Correlation
import ZmqTest.Ppq.Echo
import ZmqTest.Ppq.Expiry
import ZmqTest.Ppq.Liveness
import ZmqTest.Ppq.Messages
import ZmqTest.Ppq.Outstanding
import ZmqTest.Ppq.Queue
import ZmqTest.Ppq.System
import ZmqTest.Ppq.Worker
import ZmqTest.Randof
import ZmqTest.Ready
import ZmqTest.Relay
import ZmqTest.Rrb.Broker
import ZmqTest.Rrb.EndToEnd
import ZmqTest.Rrb.Relay
import ZmqTest.Rrb.System
import ZmqTest.Task.Cost
import ZmqTest.Task.Progress
import ZmqTest.Task.Shutdown
import ZmqTest.Task.Sink
import ZmqTest.Task.System
import ZmqTest.Weather.Average
import ZmqTest.Weather.System
import ZmqTest.Weather.Updates
